import Cmpath.Engine.Task
import Cmpath.Store.Direct

/-!
# TaskMemory

The writers of `src/cmpath/memory.py`, the other program that works on the same file. A method is
the body of its `batch()`; what it raises before the batch it raises first here too. Python
integers and texts reach SQLite unchanged; a text with a lone surrogate cannot be bound.
-/

namespace Cmpath
open Lib Lib.Txn

namespace TaskMemory

/-- `raise exc(message)`. -/
def raising (exc : Exc) (message : String) : Failure := .raised exc message

/-- `_positive` (`memory.py:39-42`). -/
def positive (value : Int) (message : String) : Tx Unit :=
  ensure (1 ≤ value) (raising .value message)

/-- A text SQLite can bind: no lone surrogate. -/
def bindable (t : Text) : Tx Unit :=
  ensure t.valid (raising .value "surrogates not allowed")

/-- The text of a value (`_json`) is one SQLite can bind. -/
def bindableJson (j : Json) : Tx Unit :=
  ensure j.sound (raising .value "surrogates not allowed")

/-- `words` (`memory.py:45-47`). -/
def words (host : Host) (text : Text) : List Text :=
  Text.runs host.isAlnum (host.casefoldNFKC text)

/-- `_event` (`memory.py:256-257`). -/
def event (kind : EventKind) (taskId : Int) (now : Stamp) : Tx Unit := insertEvent kind taskId now

/-- `task` (`memory.py:259-267`): the row. -/
def taskRow (taskId : Int) : Tx TaskRow := do
  positive taskId "task_id must be a positive integer"
  read fun db =>
    match db.task? taskId with
    | some row => .ok row
    | none => .error (raising .key "Unknown task")

/-- `create_task` (`memory.py:274-297`); returns the new identifier. -/
def createTask (host : Host) (clk : Clock) (title : Text) (parents : List Int)
    (aliases : List Text) (snapshot : Json) : Tx Int := do
  ensure (title.strip != []) (raising .value "A nonempty task title is required")
  let deps := parents.dedup
  let names := (aliases.map fun a => Text.join (Text.lit " ") (words host a)).dedup
  ensure (!names.contains []) (raising .value "Aliases must contain words")
  each deps fun dep => do
    let _ ← taskRow dep
    pure ()
  bindable title.strip
  bindableJson snapshot
  let tid ← insertTask title.strip snapshot (clk.now 0)
  each deps fun parent => Direct.exec (.insertDependency tid parent)
  each names fun name => do
    bindable name
    Direct.exec (.insertAlias tid name)
  event .create tid (clk.now 1)
  pure tid

/-- `set_snapshot` (`memory.py:299-310`). -/
def setSnapshot (clk : Clock) (taskId : Int) (snapshot : Json) (expectedRevision : Int) :
    Tx TaskRow := do
  positive expectedRevision "expected_revision must be a positive integer"
  let row ← taskRow taskId
  ensure (row.revision == expectedRevision)
    (raising .conflict "Task snapshot changed; reload its revision")
  bindableJson snapshot
  updateTask taskId fun r => { r with snapshot := snapshot, revision := r.revision + 1 }
  event .snapshot taskId (clk.now 0)
  taskRow taskId

/-- `resume` (`memory.py:316-331`); returns the planner snapshot. -/
def resume (clk : Clock) (taskId : Int) (expectedVersion : Option Int) : Tx Json := do
  ensure (expectedVersion.all (0 ≤ ·))
    (raising .value "expected_version must be a nonnegative integer")
  let row ← taskRow taskId
  require (fun db => expectedVersion.all (· == db.runtimeState.version))
    (raising .conflict "Active task changed; reload the state version")
  setActiveTask (some taskId)
  if row.status = .archived then
    updateTask taskId fun r => { r with status := .opened, revision := r.revision + 1 }
  else pure ()
  event .resume taskId (clk.now 0)
  pure row.snapshot

/-- `archive` (`memory.py:333-340`). -/
def archive (clk : Clock) (taskId : Int) : Tx Unit := do
  let _ ← taskRow taskId
  require (fun db => db.runtimeState.activeTask != some taskId)
    (raising .value "Resume another task before archiving the active task")
  updateTask taskId fun r => { r with status := .archived, revision := r.revision + 1 }
  event .archive taskId (clk.now 0)

/-- `delete_task` (`memory.py:342-352`). -/
def deleteTask (clk : Clock) (taskId : Int) : Tx Unit := do
  let _ ← taskRow taskId
  require (fun db => !db.dependencies.any (·.parent == taskId))
    (raising .value "Delete dependent tasks first")
  let active ← read fun db => .ok (db.runtimeState.activeTask == some taskId)
  if active then setActiveTask none else pure ()
  Cmpath.deleteTask taskId
  event .delete taskId (clk.now 0)

/-- `append` (`memory.py:354-366`); returns the new identifier. -/
def append (clk : Clock) (taskId : Int) (role : Text) (content : Text) (source : Json) :
    Tx Int :=
  match Role.ofText? role with
  | none => fail (raising .value "role must be user, assistant, tool, or document")
  | some role => do
      ensure (content.strip != []) (raising .value "Evidence content must be nonempty text")
      let _ ← taskRow taskId
      bindable content
      bindableJson source
      let id ← insertMessage taskId role content source (clk.now 0)
      event .append taskId (clk.now 1)
      pure id

/-- `set_fact` (`memory.py:385-403`). -/
def setFact (clk : Clock) (taskId : Int) (key : Text) (value : Json) (evidenceId : Int)
    (retracted : Bool) : Tx Unit := do
  ensure (key.strip != []) (raising .value "Fact key must be nonempty text")
  let _ ← taskRow taskId
  positive evidenceId "message_id must be a positive integer"
  require (fun db => (db.message? evidenceId).isSome) (raising .key "Unknown message")
  require (fun db => (db.message? evidenceId).any (·.taskId == taskId))
    (raising .value "Fact evidence must belong to the same task")
  bindable key.strip
  bindableJson value
  insertFact taskId key.strip value evidenceId retracted (clk.now 0)
  event .fact taskId (clk.now 1)

/-! ## The writers as row writes -/

theorem taskRow_ok {taskId : Int} {db db' : Db} {row : TaskRow}
    (h : taskRow taskId db = .ok (row, db')) : db.task? taskId = some row ∧ db' = db := by
  simp only [taskRow, positive, bind_ok, ensure_ok, read_ok] at h
  obtain ⟨_, _, ⟨_, rfl⟩, found, rfl⟩ := h
  split at found
  · rename_i r exists_
    rw [exists_, Except.ok.inj found]
    exact ⟨rfl, rfl⟩
  · simp at found

section Additive

variable (clk : Clock)

theorem keeps_taskRow {allowed : Write → Prop} (taskId : Int) :
    Keeps (Evolves allowed) (taskRow taskId) :=
  .bind Evolves.trans_all (.ensure Evolves.refl_all _ _) fun _ => .read Evolves.refl_all _

theorem keeps_event {allowed : Write → Prop} (kind : ∀ k t n, allowed (.event k t n))
    (event_ : EventKind) (taskId : Int) (now : Stamp) :
    Keeps (Evolves allowed) (event event_ taskId now) :=
  keeps_insertEvent kind _ _ _

/-- What a task is made of: its row, its dependencies, its aliases and an event. -/
theorem createTask_rows {allowed : Write → Prop} (task : ∀ r, allowed (.insertTask r))
    (dependency : ∀ r, allowed (.insertDependency r)) (alias_ : ∀ r, allowed (.insertAlias r))
    (logged : ∀ k t n, allowed (.event k t n)) (host : Host) (title : Text) (parents : List Int)
    (aliases : List Text) (snapshot : Json) :
    Keeps (Evolves allowed) (createTask host clk title parents aliases snapshot) := by
  have refl := @Evolves.refl_all allowed
  have trans := @Evolves.trans_all allowed
  unfold createTask
  refine .bind trans (.ensure refl _ _) fun _ => ?_
  refine .bind trans (.ensure refl _ _) fun _ => ?_
  refine .bind trans (.each refl trans (fun dep => ?_) _) fun _ => ?_
  · exact .bind trans (keeps_taskRow _) fun _ => .pure refl _
  refine .bind trans (.ensure refl _ _) fun _ => ?_
  refine .bind trans (.ensure refl _ _) fun _ => ?_
  refine .bind trans (keeps_insertTask task _ _ _) fun tid => ?_
  refine .bind trans (.each refl trans (fun parent => ?_) _) fun _ => ?_
  · exact keeps_directDependency (dependency _)
  refine .bind trans (.each refl trans (fun name => ?_) _) fun _ => ?_
  · exact .bind trans (.ensure refl _ _) fun _ => keeps_directAlias alias_ _ _
  exact .bind trans (keeps_event logged _ _ _) fun _ => .pure refl _

/-- A task is made without a message and without a fact. -/
theorem createTask_founds (host : Host) (title : Text) (parents : List Int) (aliases : List Text)
    (snapshot : Json) :
    Keeps (Evolves Write.Founding) (createTask host clk title parents aliases snapshot) :=
  createTask_rows clk (fun _ => trivial) (fun _ => trivial) (fun _ => trivial)
    (fun _ _ _ => trivial) host title parents aliases snapshot

theorem keeps_createTask (host : Host) (title : Text) (parents : List Int) (aliases : List Text)
    (snapshot : Json) :
    Keeps (Evolves Write.Silent) (createTask host clk title parents aliases snapshot) :=
  .mono (fun _ _ h => h.mono fun _ => Write.Founding.silent)
    (createTask_founds clk host title parents aliases snapshot)

/-- The new task has the next identifier. -/
theorem createTask_id {host : Host} {title : Text} {parents : List Int} {aliases : List Text}
    {snapshot : Json} {db db' : Db} {id : Int}
    (h : createTask host clk title parents aliases snapshot db = .ok (id, db')) :
    id = db.sequence.tasks + 1 := by
  simp only [createTask, bindable, bindableJson, bind_ok, ensure_ok, pure_ok] at h
  obtain ⟨_, _, ⟨_, rfl⟩, _, _, ⟨_, rfl⟩, _, _, deps, _, _, ⟨_, rfl⟩, _, _, ⟨_, rfl⟩, _, _, made, _, _, _,
    _, _, _, _, _, _, rfl, _⟩ := h
  have same : Keeps Eq (each parents.dedup fun dep => do
      let _ ← taskRow dep
      pure ()) := by
    refine .each (fun _ => rfl) (fun _ _ _ => Eq.trans) (fun dep => ?_) _
    exact .of_same (fun _ => rfl) fun s _ s' run => by
      obtain ⟨_, _, first, last⟩ := bind_ok.mp run
      rw [(pure_ok.mp last).2, (taskRow_ok first).2]
  rw [same _ _ _ deps]
  exact (insertTask_ok made).1

/-- What `append` checks. -/
structure Appendable (db : Db) (taskId : Int) (role content : Text) (source : Json) : Prop where
  named : (Role.ofText? role).isSome
  nonempty : content.strip ≠ []
  task : 1 ≤ taskId ∧ (db.task? taskId).isSome
  encodable : content.valid = true ∧ source.sound = true

/-- An appended message belongs to a task that is there. -/
theorem append_ok {taskId : Int} {role content : Text} {source : Json} {db db' : Db} {id : Int}
    (h : append clk taskId role content source db = .ok (id, db')) :
    ∃ m, db'.messages = db.messages ++ [m] ∧ m.id = id ∧ m.taskId = taskId ∧ m.source = source ∧
      (db.task? taskId).isSome ∧ m.content = content ∧ Role.ofText? role = some m.role ∧
      Appendable db taskId role content source := by
  unfold append at h
  cases named : Role.ofText? role with
  | none =>
    rw [named] at h
    exact (fail_ok.mp h).elim
  | some role =>
    rw [named] at h
    simp only [bindable, bindableJson, event, bind_ok, ensure_ok, pure_ok] at h
    obtain ⟨_, _, ⟨nonempty, rfl⟩, _, _, found, _, _, ⟨valid, rfl⟩, _, _, ⟨sound, rfl⟩, _, _, put,
      _, _, logged, rfl, rfl⟩ := h
    have positive : 1 ≤ taskId := by
      simp only [taskRow, TaskMemory.positive, bind_ok, ensure_ok] at found
      obtain ⟨_, _, ⟨positive, rfl⟩, _⟩ := found
      simpa using positive
    obtain ⟨here, rfl⟩ := taskRow_ok found
    obtain ⟨rfl, known, rfl⟩ := insertMessage_ok put
    rw [insertEvent_ok logged]
    exact ⟨_, rfl, rfl, rfl, rfl, known, rfl, rfl, by rw [named]; rfl, by simpa using nonempty,
      ⟨positive, known⟩, valid, sound⟩

/-- What passes the checks is appended. -/
theorem append_total {taskId : Int} {role content : Text} {source : Json} {db : Db}
    (h : Appendable db taskId role content source) :
    ∃ id db', append clk taskId role content source db = .ok (id, db') := by
  obtain ⟨r, named⟩ := Option.isSome_iff_exists.mp h.named
  obtain ⟨row, here⟩ := Option.isSome_iff_exists.mp h.task.2
  have nonempty : (content.strip != []) = true := by simpa using h.nonempty
  have found : taskRow taskId db = .ok (row, db) := by
    simp only [taskRow, positive, bind_ok, ensure_ok, read_ok]
    exact ⟨(), db, ⟨by simpa using h.task.1, rfl⟩, by rw [here], rfl⟩
  unfold append
  rw [named]
  simp only [bindable, bindableJson, event, insertMessage, requireTask, bind_ok, ensure_ok, read_ok,
    modify_ok, require_ok, pure_ok, insertEvent]
  exact ⟨_, _, (), db, ⟨nonempty, rfl⟩, row, db, found, (), db, ⟨h.encodable.1, rfl⟩, (), db,
    ⟨h.encodable.2, rfl⟩, _, _, ⟨(), db, ⟨h.task.2, rfl⟩, _, db, ⟨rfl, rfl⟩, (), _, rfl, rfl, rfl⟩,
    (), _, rfl, rfl, rfl⟩

theorem keeps_append {allowed : Write → Prop} (message : ∀ r, allowed (.insertMessage r))
    (logged : ∀ k t n, allowed (.event k t n)) (taskId : Int) (role content : Text)
    (source : Json) : Keeps (Evolves allowed) (append clk taskId role content source) := by
  have refl := @Evolves.refl_all allowed
  have trans := @Evolves.trans_all allowed
  unfold append
  split
  · exact .fail _
  refine .bind trans (.ensure refl _ _) fun _ => ?_
  refine .bind trans (keeps_taskRow _) fun _ => ?_
  refine .bind trans (.ensure refl _ _) fun _ => ?_
  refine .bind trans (.ensure refl _ _) fun _ => ?_
  refine .bind trans (keeps_insertMessage message _ _ _ _ _) fun _ => ?_
  exact .bind trans (keeps_event logged _ _ _) fun _ => .pure refl _

theorem keeps_setFact {allowed : Write → Prop} (fact : ∀ r, allowed (.insertFact r))
    (logged : ∀ k t n, allowed (.event k t n)) (taskId : Int) (key : Text) (value : Json)
    (evidenceId : Int) (retracted : Bool) :
    Keeps (Evolves allowed) (setFact clk taskId key value evidenceId retracted) := by
  have refl := @Evolves.refl_all allowed
  have trans := @Evolves.trans_all allowed
  unfold setFact
  refine .bind trans (.ensure refl _ _) fun _ => ?_
  refine .bind trans (keeps_taskRow _) fun _ => ?_
  refine .bind trans (.ensure refl _ _) fun _ => ?_
  refine .bind trans (.require refl _ _) fun _ => ?_
  refine .bind trans (.require refl _ _) fun _ => ?_
  refine .bind trans (.ensure refl _ _) fun _ => ?_
  refine .bind trans (.ensure refl _ _) fun _ => ?_
  refine .bind trans (keeps_insertFact fact _ _ _ _ _ _) fun _ => ?_
  exact keeps_event logged _ _ _

end Additive

section Keeps

variable (clk : Clock)

section Moved

/-! A task row takes a new status, snapshot or revision. -/

variable {allowed : Write → Prop} (moved : ∀ o n, n.id = o.id → allowed (.replaceTask o n))
  (logged : ∀ k t n, allowed (.event k t n))

include moved logged

theorem keeps_setSnapshot (taskId : Int) (snapshot : Json) (expectedRevision : Int) :
    Keeps (Evolves allowed) (setSnapshot clk taskId snapshot expectedRevision) := by
  have refl := @Evolves.refl_all allowed
  have trans := @Evolves.trans_all allowed
  unfold setSnapshot
  refine .bind trans (.ensure refl _ _) fun _ => ?_
  refine .bind trans (keeps_taskRow _) fun row => ?_
  refine .bind trans (.ensure refl _ _) fun _ => ?_
  refine .bind trans (.ensure refl _ _) fun _ => ?_
  refine .bind trans (keeps_updateTask moved _ fun _ => rfl) fun _ => ?_
  exact .bind trans (keeps_event logged _ _ _) fun _ => keeps_taskRow _

theorem keeps_resume (active : ∀ s, allowed (.runtime s)) (taskId : Int)
    (expectedVersion : Option Int) :
    Keeps (Evolves allowed) (resume clk taskId expectedVersion) := by
  have refl := @Evolves.refl_all allowed
  have trans := @Evolves.trans_all allowed
  unfold resume
  refine .bind trans (.ensure refl _ _) fun _ => ?_
  refine .bind trans (keeps_taskRow _) fun row => ?_
  refine .bind trans (.require refl _ _) fun _ => ?_
  refine .bind trans (keeps_setActiveTask active _) fun _ => ?_
  split
  · refine .bind trans (keeps_updateTask moved _ fun _ => rfl) fun _ => ?_
    exact .bind trans (keeps_event logged _ _ _) fun _ => .pure refl _
  · exact .bind trans (keeps_event logged _ _ _) fun _ => .pure refl _

theorem keeps_archive (taskId : Int) : Keeps (Evolves allowed) (archive clk taskId) := by
  have refl := @Evolves.refl_all allowed
  have trans := @Evolves.trans_all allowed
  unfold archive
  refine .bind trans (keeps_taskRow _) fun _ => ?_
  refine .bind trans (.require refl _ _) fun _ => ?_
  refine .bind trans (keeps_updateTask moved _ fun _ => rfl) fun _ => ?_
  exact keeps_event logged _ _ _

end Moved

theorem refl_edgeless : ∀ db, Evolves Write.Edgeless db db := Evolves.refl_all

theorem trans_edgeless : ∀ a b c, Evolves Write.Edgeless a b → Evolves Write.Edgeless b c →
    Evolves Write.Edgeless a c :=
  Evolves.trans_all

theorem keeps_deleteTask (taskId : Int) : Keeps (Evolves Write.Edgeless) (deleteTask clk taskId) := by
  unfold deleteTask
  refine .bind trans_edgeless (keeps_taskRow _) fun _ => ?_
  refine .bind trans_edgeless (.require refl_edgeless _ _) fun _ => ?_
  refine .bind trans_edgeless (.read refl_edgeless _) fun active => ?_
  split
  · refine .bind trans_edgeless (keeps_setActiveTask (fun _ => trivial) _) fun _ => ?_
    exact .bind trans_edgeless (Cmpath.keeps_deleteTask _) fun _ => keeps_event (fun _ _ _ => trivial) _ _ _
  · exact .bind trans_edgeless (Cmpath.keeps_deleteTask _) fun _ => keeps_event (fun _ _ _ => trivial) _ _ _

end Keeps

end TaskMemory

end Cmpath
