import Cmpath.Lib.Table
import Cmpath.Store.Schema

/-!
# Statements

The SQL statements of the engine and of `TaskMemory`, with the constraints and triggers of
`base.sql` and `journal.sql` that apply to them. Every row write of `tasks`, `messages`, `facts`,
`dependencies` or `aliases` goes through `Db.touch`, which fires its epoch trigger.
-/

namespace Cmpath
open Lib Lib.Txn

/-! ## The epoch triggers -/

/-- `INSERT INTO cmp_scope_epochs VALUES(id,1) ON CONFLICT(task_id) DO UPDATE SET epoch=epoch+1`
    (`journal.sql:94-95`). -/
def bump (id : Int) (epochs : List EpochRow) : List EpochRow :=
  if epochs.any (·.taskId == id) then
    Table.update (·.taskId == id) (fun e => { e with epoch := e.epoch + 1 }) epochs
  else epochs ++ [⟨id, 1⟩]

/-- `UPDATE cmp_scope_epochs SET epoch=epoch+1 WHERE task_id=0` (`journal.sql:96`). -/
def tick (epochs : List EpochRow) : List EpochRow :=
  Table.update (·.taskId == 0) (fun e => { e with epoch := e.epoch + 1 }) epochs

/-- The old row's task, the new row's task unless it is the same one, and the whole database. -/
def Touch.fire (t : Touch) (epochs : List EpochRow) : List EpochRow :=
  let afterOld := match t.old with
    | some id => bump id epochs
    | none => epochs
  let afterNew := match t.new with
    | some id => if t.old = some id then afterOld else bump id afterOld
    | none => afterOld
  tick afterNew

/-- Fire the trigger of one row write. -/
def Db.touch (t : Touch) (db : Db) : Db :=
  { db with scopeEpochs := t.fire db.scopeEpochs, writes := t :: db.writes }

/-- Fire the triggers of several row writes. -/
def Db.touchAll (ts : List Touch) (db : Db) : Db := ts.foldr Db.touch db

/-! ## Row writes -/

def Db.insertTask (new : TaskRow) (db : Db) : Db :=
  Db.touch ⟨none, some new.id⟩
    { db with tasks := db.tasks ++ [new], sequence := { db.sequence with tasks := new.id } }

def Db.replaceTask (old new : TaskRow) (db : Db) : Db :=
  Db.touch ⟨some old.id, some new.id⟩
    { db with tasks := Table.replace (·.id == old.id) new db.tasks }

def Db.deleteTasks (p : TaskRow → Bool) (db : Db) : Db :=
  Db.touchAll ((db.tasks.filter p).map fun r => ⟨some r.id, none⟩)
    { db with tasks := Table.delete p db.tasks }

def Db.insertMessage (new : MessageRow) (db : Db) : Db :=
  Db.touch ⟨none, some new.taskId⟩
    { db with
      messages := db.messages ++ [new]
      evidenceIndex := db.evidenceIndex ++ [.insert new.id new.content]
      sequence := { db.sequence with messages := new.id } }

def Db.replaceMessage (old new : MessageRow) (db : Db) : Db :=
  Db.touch ⟨some old.taskId, some new.taskId⟩
    { db with messages := Table.replace (·.id == old.id) new db.messages }

def Db.deleteMessages (p : MessageRow → Bool) (db : Db) : Db :=
  Db.touchAll ((db.messages.filter p).map fun r => ⟨some r.taskId, none⟩)
    { db with
      messages := Table.delete p db.messages
      evidenceIndex :=
        db.evidenceIndex ++ (db.messages.filter p).map fun r => .delete r.id r.content }

def Db.insertFact (new : FactRow) (db : Db) : Db :=
  Db.touch ⟨none, some new.taskId⟩
    { db with facts := db.facts ++ [new], sequence := { db.sequence with facts := new.id } }

def Db.replaceFact (old new : FactRow) (db : Db) : Db :=
  Db.touch ⟨some old.taskId, some new.taskId⟩
    { db with facts := Table.replace (·.id == old.id) new db.facts }

def Db.deleteFacts (p : FactRow → Bool) (db : Db) : Db :=
  Db.touchAll ((db.facts.filter p).map fun r => ⟨some r.taskId, none⟩)
    { db with facts := Table.delete p db.facts }

def Db.insertDependency (new : DependencyRow) (db : Db) : Db :=
  Db.touch ⟨none, some new.child⟩ { db with dependencies := db.dependencies ++ [new] }

def Db.replaceDependency (old new : DependencyRow) (db : Db) : Db :=
  Db.touch ⟨some old.child, some new.child⟩
    { db with dependencies := Table.replace (· == old) new db.dependencies }

def Db.deleteDependencies (p : DependencyRow → Bool) (db : Db) : Db :=
  Db.touchAll ((db.dependencies.filter p).map fun r => ⟨some r.child, none⟩)
    { db with dependencies := Table.delete p db.dependencies }

def Db.insertAlias (new : AliasRow) (db : Db) : Db :=
  Db.touch ⟨none, some new.taskId⟩ { db with aliases := db.aliases ++ [new] }

def Db.replaceAlias (old new : AliasRow) (db : Db) : Db :=
  Db.touch ⟨some old.taskId, some new.taskId⟩
    { db with aliases := Table.replace (· == old) new db.aliases }

def Db.deleteAliases (p : AliasRow → Bool) (db : Db) : Db :=
  Db.touchAll ((db.aliases.filter p).map fun r => ⟨some r.taskId, none⟩)
    { db with aliases := Table.delete p db.aliases }

/-! ## Lookups -/

def Db.task? (db : Db) (id : Int) : Option TaskRow := db.tasks.find? (·.id == id)

def Db.message? (db : Db) (id : Int) : Option MessageRow := db.messages.find? (·.id == id)

def Db.fact? (db : Db) (id : Int) : Option FactRow := db.facts.find? (·.id == id)

def Db.turn? (db : Db) (id : Text) : Option TurnRow := db.turns.find? (·.requestId == id)

def Db.retired? (db : Db) (id : Text) : Option RetiredRow :=
  db.retiredTurns.find? (·.requestId == id)

def Db.tool? (db : Db) (id callId : Text) : Option ToolRow :=
  db.toolCalls.find? fun t => t.requestId == id && t.callId == callId

def Db.modelCall? (db : Db) (id callId : Text) : Option ModelCallRow :=
  db.modelCalls.find? fun m => m.requestId == id && m.callId == callId

def Db.modelResponse? (db : Db) (id callId : Text) : Option ModelResponseRow :=
  db.modelResponses.find? fun m => m.requestId == id && m.callId == callId

def Db.epoch? (db : Db) (id : Int) : Option Int :=
  (db.scopeEpochs.find? (·.taskId == id)).map (·.epoch)

/-! ## Base statements -/

/-- A row names a task (`REFERENCES tasks(id)`). -/
def requireTask (id : Int) : Tx Unit :=
  require (fun db => (db.task? id).isSome) (.constraint "FOREIGN KEY constraint failed")

/-- `INSERT INTO tasks(title,status,snapshot,created_at) VALUES(?,'open',?,?)`; returns the new
    identifier. -/
def insertTask (title : Text) (snapshot : Json) (now : Stamp) : Tx Int := do
  let id ← read fun db => .ok (db.sequence.tasks + 1)
  modify (Db.insertTask ⟨id, title, .opened, snapshot, 1, now⟩)
  pure id

/-- `UPDATE tasks SET … WHERE id=?`. -/
def updateTask (id : Int) (f : TaskRow → TaskRow) : Tx Unit :=
  modify fun db =>
    match db.task? id with
    | some old => db.replaceTask old (f old)
    | none => db

/-- `INSERT OR IGNORE INTO dependencies(child,parent) VALUES(?,?)`. -/
def insertDependencyOrIgnore (child parent : Int) : Tx Unit := do
  requireTask child
  requireTask parent
  modify fun db =>
    if db.dependencies.contains ⟨child, parent⟩ || child == parent then db
    else db.insertDependency ⟨child, parent⟩

/-- `INSERT OR IGNORE INTO aliases VALUES(?,?)`. -/
def insertAliasOrIgnore (taskId : Int) (aliasText : Text) : Tx Unit := do
  requireTask taskId
  modify fun db =>
    if db.aliases.contains ⟨taskId, aliasText⟩ then db else db.insertAlias ⟨taskId, aliasText⟩

/-- `INSERT INTO messages(task_id,role,content,source,created_at) VALUES(?,?,?,?,?)`; returns the
    new identifier. -/
def insertMessage (taskId : Int) (role : Role) (content : Text) (source : Json) (now : Stamp) :
    Tx Int := do
  requireTask taskId
  let id ← read fun db => .ok (db.sequence.messages + 1)
  modify (Db.insertMessage ⟨id, taskId, role, content, source, now⟩)
  pure id

/-- `SELECT coalesce(max(revision),0) FROM facts WHERE task_id=? AND key=?`. -/
def Db.factRevision (db : Db) (taskId : Int) (key : Text) : Int :=
  ((db.facts.filter fun f => f.taskId == taskId && f.key == key).map (·.revision)).foldr max 0

/-- `INSERT INTO facts(task_id,key,revision,value,evidence_id,retracted,created_at) VALUES(…)`
    with the next revision of the key. -/
def insertFact (taskId : Int) (key : Text) (value : Json) (evidenceId : Int) (retracted : Bool)
    (now : Stamp) : Tx Unit := do
  requireTask taskId
  require (fun db => (db.message? evidenceId).isSome) (.constraint "FOREIGN KEY constraint failed")
  modify fun db =>
    db.insertFact ⟨db.sequence.facts + 1, taskId, key, db.factRevision taskId key + 1, value,
      evidenceId, retracted, now⟩

/-- `INSERT INTO events(kind,task_id,created_at) VALUES(?,?,?)`. -/
def insertEvent (kind : EventKind) (taskId : Int) (now : Stamp) : Tx Unit :=
  modify fun db =>
    { db with
      events := db.events ++ [⟨db.sequence.events + 1, kind, some taskId, now⟩]
      sequence := { db.sequence with events := db.sequence.events + 1 } }

/-- `UPDATE runtime_state SET active_task=?,version=version+1 WHERE singleton=1`. -/
def setActiveTask (task : Option Int) : Tx Unit :=
  modify fun db => { db with runtimeState := ⟨task, db.runtimeState.version + 1⟩ }

/-- No tool call cites a message that is to go (`evidence_id … ON DELETE RESTRICT`). -/
def requireUncited (p : MessageRow → Bool) : Tx Unit :=
  require (fun db => (db.messages.filter p).all fun m =>
      !db.toolCalls.any (·.evidenceId == some m.id))
    (.constraint "FOREIGN KEY constraint failed")

/-- `DELETE FROM messages WHERE …`, which deletes the facts of these messages with them. -/
def deleteMessages (p : MessageRow → Bool) : Tx Unit := do
  requireUncited p
  modify fun db =>
    db.deleteFacts fun f => (db.messages.filter p).any (·.id == f.evidenceId)
  modify (Db.deleteMessages p)

/-- `DELETE FROM tasks WHERE id=?` with its cascades (`base.sql:8-41`): refused while a child
    names the task as its parent or a turn belongs to it. -/
def deleteTask (id : Int) : Tx Unit := do
  require (fun db => !db.dependencies.any (·.parent == id) && !db.turns.any (·.taskId == id))
    (.constraint "FOREIGN KEY constraint failed")
  modify (Db.deleteDependencies (·.child == id))
  modify (Db.deleteAliases (·.taskId == id))
  modify (Db.deleteFacts (·.taskId == id))
  deleteMessages (·.taskId == id)
  modify (Db.deleteTasks (·.id == id))
  modify fun db =>
    if db.runtimeState.activeTask == some id then
      { db with runtimeState := { db.runtimeState with activeTask := none } }
    else db

/-! ## Journal statements -/

/-- A journal row names a live turn (`REFERENCES cmp_turns(request_id)`). -/
def requireTurn (id : Text) : Tx Unit :=
  require (fun db => (db.turn? id).isSome) (.constraint "FOREIGN KEY constraint failed")

/-- `INSERT INTO cmp_turns(…) VALUES(…)`: the retired-ID guard, the primary key, the one-pending
    index and the task reference. -/
def insertTurn (new : TurnRow) : Tx Unit := do
  require (fun db => (db.retired? new.requestId).isNone)
    (.constraint "retired request ID cannot be reused")
  require (fun db => (db.turn? new.requestId).isNone)
    (.constraint "UNIQUE constraint failed: cmp_turns.request_id")
  require (fun db => new.status != .pending ||
      !db.turns.any fun t => t.taskId == new.taskId && t.status == .pending)
    (.constraint "UNIQUE constraint failed: cmp_turns.task_id")
  requireTask new.taskId
  modify fun db => { db with turns := db.turns ++ [new] }

/-- `UPDATE cmp_turns SET … WHERE request_id=?`. -/
def updateTurn (id : Text) (f : TurnRow → TurnRow) : Tx Unit :=
  modify fun db => { db with turns := Table.update (·.requestId == id) f db.turns }

/-- `INSERT INTO cmp_tool_calls(…) VALUES(…)`. -/
def insertToolCall (new : ToolRow) : Tx Unit := do
  requireTurn new.requestId
  require (fun db => (db.tool? new.requestId new.callId).isNone)
    (.constraint "UNIQUE constraint failed: cmp_tool_calls.request_id, cmp_tool_calls.call_id")
  modify fun db => { db with toolCalls := db.toolCalls ++ [new] }

/-- `UPDATE cmp_tool_calls SET … WHERE request_id=? AND call_id=?`. -/
def updateToolCall (id callId : Text) (f : ToolRow → ToolRow) : Tx Unit :=
  modify fun db =>
    { db with
      toolCalls := Table.update (fun t => t.requestId == id && t.callId == callId) f db.toolCalls }

/-- `INSERT INTO cmp_model_calls VALUES(?,?,?,?,?)`. -/
def insertModelCall (new : ModelCallRow) : Tx Unit := do
  requireTurn new.requestId
  require (fun db => (db.modelCall? new.requestId new.callId).isNone)
    (.constraint "UNIQUE constraint failed: cmp_model_calls.request_id, cmp_model_calls.call_id")
  modify fun db => { db with modelCalls := db.modelCalls ++ [new] }

/-- `INSERT INTO cmp_model_responses(…) VALUES(?,?,?,?)`. -/
def insertModelResponse (new : ModelResponseRow) : Tx Unit := do
  require (fun db => (db.modelCall? new.requestId new.callId).isSome)
    (.constraint "FOREIGN KEY constraint failed")
  require (fun db => (db.modelResponse? new.requestId new.callId).isNone)
    (.constraint
      "UNIQUE constraint failed: cmp_model_responses.request_id, cmp_model_responses.call_id")
  modify fun db => { db with modelResponses := db.modelResponses ++ [new] }

/-- `INSERT INTO cmp_turn_basis(request_id,task_id,epoch) VALUES(?,?,?)`. -/
def insertBasis (new : BasisRow) : Tx Unit := do
  requireTurn new.requestId
  require (fun db => !db.turnBasis.any fun b =>
      b.requestId == new.requestId && b.taskId == new.taskId)
    (.constraint "UNIQUE constraint failed: cmp_turn_basis.request_id, cmp_turn_basis.task_id")
  modify fun db => { db with turnBasis := db.turnBasis ++ [new] }

/-- `INSERT INTO cmp_turn_provenance(request_id,evidence_id,kind,created_at) VALUES(?,?,?,?)`. -/
def insertProvenance (new : ProvenanceRow) : Tx Unit := do
  requireTurn new.requestId
  require (fun db => !db.turnProvenance.any fun p =>
      p.requestId == new.requestId && p.evidenceId == new.evidenceId && p.kind == new.kind)
    (.constraint "UNIQUE constraint failed: cmp_turn_provenance")
  modify fun db => { db with turnProvenance := db.turnProvenance ++ [new] }

/-- `INSERT INTO cmp_action_leases(…) VALUES(?,?,?,?,?,?,?)`. -/
def insertLease (new : LeaseRow) : Tx Unit := do
  requireTurn new.requestId
  require (fun db => !db.actionLeases.any (·.token == new.token))
    (.constraint "UNIQUE constraint failed: cmp_action_leases.token")
  modify fun db => { db with actionLeases := db.actionLeases ++ [new] }

end Cmpath
