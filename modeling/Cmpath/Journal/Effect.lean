import Cmpath.Engine.Operation

/-!
# What each operation does

One lemma for each operation on the turn journal: what a successful run found and the database it
left. The later proofs use these and never unfold an operation.
-/

namespace Cmpath
open Lib Lib.Txn

/-! ## Reads -/

theorem turn?_id {db : Db} {id : Text} {t : TurnRow} (h : db.turn? id = some t) :
    t.requestId = id := by
  have := List.find?_some h
  simpa using this

theorem turnRow_ok {id : Text} {db : Db} {t : TurnRow} :
    turnRow id db = .ok t ↔ db.turn? id = some t := by
  unfold turnRow
  cases db.turn? id with
  | some row => simp
  | none =>
    simp only [reduceCtorEq, iff_false]
    split <;> simp [problem]

theorem turn_ok {id : Text} {db : Db} {out : Turn} :
    turn id db = .ok out ↔ ∃ t, db.turn? id = some t ∧ out = t.turn := by
  unfold turn
  rw [except_bind_ok]
  simp only [turnRow_ok, Except.ok.injEq, eq_comm]

theorem pending_ok {id : Text} {generation : Int} {db : Db} {t : TurnRow} :
    pending id generation db = .ok t ↔
      db.turn? id = some t ∧ t.status = .pending ∧ t.generation = generation := by
  unfold pending
  simp only [except_bind_ok, turnRow_ok]
  constructor
  · rintro ⟨row, found, run⟩
    split at run
    · simp [problem] at run
    · rename_i status
      split at run
      · simp [problem] at run
      · rename_i current
        cases run
        exact ⟨found, by simpa using status, by simpa using current⟩
  · rintro ⟨found, status, current⟩
    exact ⟨t, found, by simp [status, current]⟩

theorem toolRow_ok {id callId : Text} {db : Db} {t : ToolRow} :
    toolRow id callId db = .ok t ↔ db.tool? id callId = some t := by
  unfold toolRow
  cases db.tool? id callId with
  | some row => simp
  | none => simp [problem]

theorem task_ok {id : Int} {db : Db} {t : Task} (h : task id db = .ok t) :
    ∃ row, db.task? id = some row ∧ t.id = id ∧ t.status = row.status ∧
      t.revision = row.revision ∧ t.snapshot = object row.snapshot := by
  unfold task at h
  cases found : db.task? id with
  | none =>
    rw [found] at h
    simp [problem] at h
  | some row =>
    rw [found] at h
    cases h
    exact ⟨row, rfl, rfl, rfl, rfl, rfl⟩

/-! ## Recover and Abort -/

theorem recover_ok {clk : Clock} {id : Text} {generation : Int} {db db' : Db} {out : Turn}
    (h : recover clk id generation db = .ok (out, db')) :
    ∃ t row, db.turn? id = some t ∧ t.status = .pending ∧ t.generation = generation ∧
      db.task? t.taskId = some row ∧ row.revision = t.taskRevision ∧
      db' = { db with
        turns := Table.update (·.requestId == id) (TurnRow.recover (clk.now 0)) db.turns } := by
  simp only [recover, updateTurn, bind_ok, read_ok, ensure_ok, modify_ok] at h
  obtain ⟨t, _, ⟨current, rfl⟩, snapshot, _, ⟨found, rfl⟩, _, _, ⟨same, rfl⟩, _, _, rfl, _, rfl⟩ := h
  obtain ⟨live, status, fenced⟩ := pending_ok.mp current
  obtain ⟨row, exists_, _, _, revision, _⟩ := task_ok found
  exact ⟨t, row, live, status, fenced, exists_, by rw [← revision]; simpa using same, rfl⟩

theorem abort_ok {clk : Clock} {id : Text} {generation : Int} {db db' : Db} {u : Unit}
    (h : abort clk id generation db = .ok (u, db')) :
    ∃ t, db.turn? id = some t ∧ t.status = .pending ∧ t.generation = generation ∧
      db' = { db with
        turns := Table.update (·.requestId == id) (TurnRow.abort (clk.now 0)) db.turns } := by
  simp only [abort, updateTurn, bind_ok, read_ok, modify_ok] at h
  obtain ⟨t, _, ⟨current, rfl⟩, rfl⟩ := h
  obtain ⟨live, status, fenced⟩ := pending_ok.mp current
  exact ⟨t, live, status, fenced, rfl⟩

/-! ## Tools -/

theorem validateBasis_turn {id : Text} {db : Db} {u : Unit} (h : validateBasis id db = .ok u) :
    ∃ t, db.turn? id = some t := by
  obtain ⟨t, found, _⟩ := validateBasis_ok.mp h
  exact ⟨t, found⟩

/-- A replay answers from the journal; a new intent is recorded once, on a fresh basis. -/
theorem startTool_ok {host : Host} {id : Text} {generation : Int} {callId name : Text}
    {args : Json} {db db' : Db} {out : ToolCall}
    (h : startTool host id generation callId name args db = .ok (out, db')) :
    (textOK callId = true ∧ callId.size ≤ 128) ∧ textOK name = true ∧
    ∃ t, db.turn? id = some t ∧ t.status = .pending ∧ t.generation = generation ∧
      ((∃ old, db.tool? id callId = some old ∧ old.fingerprint = callHash host name args.canon ∧
          out = old.call ∧ db' = db) ∨
        (db.tool? id callId = none ∧ validateBasis id db = .ok () ∧ out.created = true ∧
          out.status = .started ∧
          db' = { db with toolCalls := db.toolCalls ++ [newTool host id callId name args] })) := by
  simp only [startTool, bind_ok, ensure_ok, read_ok, Except.ok.injEq] at h
  obtain ⟨_, _, ⟨texts, rfl⟩, t, _, ⟨current, rfl⟩, old, _, ⟨rfl, rfl⟩, run⟩ := h
  rename_i db
  simp only [Bool.and_eq_true] at texts
  obtain ⟨live, status, fenced⟩ := pending_ok.mp current
  refine ⟨⟨texts.1.1, by simpa using texts.2⟩, texts.1.2, t, live, status, fenced, ?_⟩
  cases known : db.tool? id callId with
  | some old =>
    rw [known] at run
    dsimp only at run
    split at run
    · exact (fail_ok.mp run).elim
    · rename_i same
      obtain ⟨rfl, rfl⟩ := pure_ok.mp run
      exact .inl ⟨old, rfl, by simpa using same, rfl, rfl⟩
  | none =>
    rw [known] at run
    simp only [createTool, insertToolCall, bind_ok, read_ok, modify_ok, pure_ok, toolRow_ok] at run
    obtain ⟨⟨⟩, _, ⟨fresh, rfl⟩, _, _, ⟨_, _, turn, _, _, free, rfl⟩, row, _, ⟨found, rfl⟩, rfl,
      rfl⟩ := run
    obtain ⟨_, rfl⟩ := require_ok.mp turn
    obtain ⟨_, rfl⟩ := require_ok.mp free
    have row_eq : row = newTool host id callId name args := by
      unfold Db.tool? at found known
      rw [List.find?_append, known] at found
      simpa [newTool, eq_comm] using found
    exact .inr ⟨rfl, fresh, rfl, by rw [row_eq]; rfl, rfl⟩

theorem actionEligible_ok {host : Host} {clk : Clock} {id : Text} {generation : Int}
    {callId : Text} {ttlMs : Int} {db db' : Db} {out : ActionLease}
    (h : actionEligible host clk id generation callId ttlMs db = .ok (out, db')) :
    textOK callId = true ∧
    ∃ t call lease, db.turn? id = some t ∧ t.status = .pending ∧ t.generation = generation ∧
      db.tool? id callId = some call ∧ call.status = .started ∧ validateBasis id db = .ok () ∧
      lease.requestId = id ∧ lease.callId = callId ∧ lease.generation = generation ∧
      ((∃ v, lease.token = fingerprint host v) ∧ ∀ l ∈ db.actionLeases, l.token ≠ lease.token) ∧
      (∃ v, lease.argsHash = fingerprint host v) ∧
      db' = { db with actionLeases := db.actionLeases ++ [lease] } := by
  simp only [actionEligible, insertLease, bind_ok, ensure_ok, read_ok, modify_ok, pure_ok] at h
  obtain ⟨_, _, ⟨texts, rfl⟩, _, _, ⟨_, rfl⟩, t, _, ⟨current, rfl⟩, call, _, ⟨known, rfl⟩, _, _,
    ⟨started, rfl⟩, ⟨⟩, _, ⟨fresh, rfl⟩, _, _, ⟨_, _, turn, _, _, free, rfl⟩, rfl, rfl⟩ := h
  obtain ⟨_, rfl⟩ := require_ok.mp turn
  obtain ⟨free, rfl⟩ := require_ok.mp free
  obtain ⟨live, status, fenced⟩ := pending_ok.mp current
  simp only [Bool.and_eq_true] at texts
  exact ⟨texts.1, t, call, _, live, status, fenced, toolRow_ok.mp known, by simpa using started,
    fresh, rfl, rfl, rfl, ⟨⟨_, rfl⟩, by simpa using free⟩, ⟨_, rfl⟩, rfl⟩

/-- The evidence row of a tool result. -/
def resultMessage (db : Db) (clk : Clock) (taskId : Int) (call : ToolRow) (raw : Json) :
    MessageRow :=
  ⟨db.sequence.messages + 1, taskId, .tool, raw.marshal,
    encode (object (toolSource call.requestId call.callId call.name)), clk.now 0⟩

/-- The basis of a turn with the epochs of one key moved on. -/
def moveBasis (id : Text) (key delta : Int) (basis : List BasisRow) : List BasisRow :=
  Table.update (fun b => b.requestId == id && b.taskId == key)
    (fun b => { b with epoch := b.epoch + delta }) basis

/-- What the first confirmed result of a call leaves: its evidence, the basis moved on by the
    epochs this evidence took, the completed call. -/
structure Finished (clk : Clock) (id callId : Text) (raw : Json) (t : TurnRow) (call : ToolRow)
    (db db' : Db) : Prop where
  task : (db.task? t.taskId).isSome
  taskEpoch : ∃ before after, db.epoch? t.taskId = some before ∧
    (db.insertMessage (resultMessage db clk t.taskId call raw)).epoch? t.taskId = some after ∧
    ∃ globalBefore globalAfter, db.epoch? 0 = some globalBefore ∧
      (db.insertMessage (resultMessage db clk t.taskId call raw)).epoch? 0 = some globalAfter ∧
      db' = { db.insertMessage (resultMessage db clk t.taskId call raw) with
        turnBasis := moveBasis id 0 (globalAfter - globalBefore)
          (moveBasis id t.taskId (after - before) db.turnBasis)
        toolCalls := Table.update (fun c => c.requestId == id && c.callId == callId)
          (ToolRow.complete raw (db.sequence.messages + 1)) db.toolCalls }

theorem tool?_key {db : Db} {id callId : Text} {row : ToolRow}
    (h : db.tool? id callId = some row) : row.requestId = id ∧ row.callId = callId := by
  have := List.find?_some h
  simpa using this

theorem recordResult_ok {clk : Clock} {id callId : Text} {t : TurnRow} {call : ToolRow}
    {raw : Json} {db db' : Db} {out : ToolCall} (known : db.tool? id callId = some call)
    (h : recordResult clk id callId t.taskId call raw db = .ok (out, db')) :
    Finished clk id callId raw t call db db' := by
  simp only [recordResult, advanceBasis, updateToolCall, bind_ok, read_ok, modify_ok, pure_ok,
    scopeEpoch_ok] at h
  obtain ⟨before, _, ⟨taskBefore, rfl⟩, globalBefore, _, ⟨zeroBefore, rfl⟩, ev, _, appended, ⟨⟩, _,
    ⟨after, _, ⟨taskAfter, rfl⟩, rfl⟩, ⟨⟩, _, ⟨globalAfter, _, ⟨zeroAfter, rfl⟩, rfl⟩, ⟨⟩, _, rfl,
    row, _, ⟨_, rfl⟩, rfl, rfl⟩ := h
  obtain ⟨role, roleText, _, exists_, evId, rfl⟩ := append_ok appended
  have tool : role = .tool := by
    have : Role.ofText? (Text.lit "tool") = some Role.tool := by decide
    rw [this] at roleText
    exact (Option.some.inj roleText).symm
  obtain ⟨rfl, rfl⟩ := tool?_key known
  subst tool
  rw [evId]
  exact ⟨exists_, before, after, taskBefore, taskAfter, globalBefore, globalAfter, zeroBefore,
    zeroAfter, rfl⟩

/-- A completed call only ever answers its recorded result; a started one records its evidence. -/
theorem finishTool_ok {host : Host} {clk : Clock} {id : Text} {generation : Int} {callId : Text}
    {result : Json} {tokens : List Text} {db db' : Db} {out : ToolCall}
    (h : finishTool host clk id generation callId result tokens db = .ok (out, db')) :
    ∃ t call, db.turn? id = some t ∧ t.status = .pending ∧ t.generation = generation ∧
      db.tool? id callId = some call ∧
      ((call.status = .completed ∧ db' = db) ∨
        (call.status = .started ∧
          Finished clk id callId (encode result.canon) t call db db')) := by
  simp only [finishTool, bind_ok, read_ok] at h
  obtain ⟨t, _, ⟨current, rfl⟩, call, _, ⟨known, rfl⟩, run⟩ := h
  obtain ⟨live, status, fenced⟩ := pending_ok.mp current
  have found := toolRow_ok.mp known
  refine ⟨t, call, live, status, fenced, found, ?_⟩
  split at run
  · rename_i completed
    split at run
    · exact (fail_ok.mp run).elim
    · exact .inl ⟨completed, (pure_ok.mp run).2⟩
  · rename_i open_
    simp only [bind_ok, read_ok] at run
    obtain ⟨⟨⟩, _, ⟨_, rfl⟩, recorded⟩ := run
    have started : call.status = .started := by
      cases state : call.status with
      | started => rfl
      | completed => exact absurd state open_
    exact .inr ⟨started, recordResult_ok found recorded⟩

/-! ## Model calls -/

theorem checkedJSON_ok {host : Host} {text : Text} {u : Unit} (h : checkedJSON host text = .ok u) :
    text.valid = true := by
  unfold checkedJSON at h
  split at h
  · simp [problem] at h
  · split at h
    · simp at h
    · rename_i valid
      simpa using valid

theorem recordModelRequest_ok {host : Host} {id : Text} {generation : Int}
    {callId payload : Text} {units : Int} {counting : Text} {db db' : Db} {u : Unit}
    (h : recordModelRequest host id generation callId payload units counting db = .ok (u, db')) :
    textOK callId = true ∧ textOK counting = true ∧ payload.valid = true ∧
    ∃ t, db.turn? id = some t ∧ t.status = .pending ∧ t.generation = generation ∧
      units ≤ (Package.ofJson t.packageJson).inputAllowance ∧
      ((∃ old, db.modelCall? id callId = some old ∧ db' = db) ∨
        (db.modelCall? id callId = none ∧ validateBasis id db = .ok () ∧
          db' = { db with
            modelCalls := db.modelCalls ++ [⟨id, callId, payload, units, counting⟩] })) := by
  simp only [recordModelRequest, bind_ok, ensure_ok, read_ok, Except.ok.injEq] at h
  obtain ⟨_, _, ⟨texts, rfl⟩, ⟨⟩, _, ⟨json, rfl⟩, t, _, ⟨current, rfl⟩, _, _, ⟨budget, rfl⟩, old, _,
    ⟨rfl, rfl⟩, run⟩ := h
  rename_i db
  simp only [Bool.and_eq_true] at texts
  obtain ⟨live, status, fenced⟩ := pending_ok.mp current
  refine ⟨texts.1.1, texts.1.2, checkedJSON_ok json, t, live, status, fenced, by simpa using budget, ?_⟩
  cases known : db.modelCall? id callId with
  | some old =>
    rw [known] at run
    exact .inl ⟨old, rfl, (ensure_ok.mp run).2⟩
  | none =>
    rw [known] at run
    simp only [insertModelCall, bind_ok, read_ok, modify_ok] at run
    obtain ⟨⟨⟩, _, ⟨fresh, rfl⟩, _, _, turn, _, _, free, rfl⟩ := run
    obtain ⟨_, rfl⟩ := require_ok.mp turn
    obtain ⟨_, rfl⟩ := require_ok.mp free
    exact .inr ⟨rfl, fresh, rfl⟩

theorem recordModelResponse_ok {host : Host} {clk : Clock} {id : Text} {generation : Int}
    {callId response : Text} {db db' : Db} {u : Unit}
    (h : recordModelResponse host clk id generation callId response db = .ok (u, db')) :
    textOK callId = true ∧ response.valid = true ∧
    ∃ t, db.turn? id = some t ∧ t.status = .pending ∧ t.generation = generation ∧
      (db.modelCall? id callId).isSome ∧
      ((∃ old, db.modelResponse? id callId = some old ∧ db' = db) ∨
        (db.modelResponse? id callId = none ∧
          db' = { db with
            modelResponses := db.modelResponses ++ [⟨id, callId, response, clk.now 0⟩] })) := by
  simp only [recordModelResponse, bind_ok, ensure_ok, read_ok, require_ok, Except.ok.injEq] at h
  obtain ⟨_, _, ⟨text, rfl⟩, ⟨⟩, _, ⟨json, rfl⟩, _, _, ⟨_, rfl⟩, t, _, ⟨current, rfl⟩, _, _,
    ⟨request, rfl⟩, old, _, ⟨rfl, rfl⟩, run⟩ := h
  rename_i db
  obtain ⟨live, status, fenced⟩ := pending_ok.mp current
  refine ⟨text, checkedJSON_ok json, t, live, status, fenced, request, ?_⟩
  cases known : db.modelResponse? id callId with
  | some old =>
    rw [known] at run
    exact .inl ⟨old, rfl, (ensure_ok.mp run).2⟩
  | none =>
    rw [known] at run
    simp only [insertModelResponse, bind_ok, modify_ok] at run
    obtain ⟨_, _, turn, _, _, free, rfl⟩ := run
    obtain ⟨_, rfl⟩ := require_ok.mp turn
    obtain ⟨_, rfl⟩ := require_ok.mp free
    exact .inr ⟨rfl, rfl⟩

/-! ## Begin -/

/-- Tasks, and so scopes, are read from the base tables alone. -/
theorem task_congr {a b : Db} (same : a.toTables = b.toTables) (id : Int) :
    task id a = task id b := by
  have tasks : a.tasks = b.tasks := congrArg Tables.tasks same
  have edges : a.dependencies = b.dependencies := congrArg Tables.dependencies same
  have aliases : a.aliases = b.aliases := congrArg Tables.aliases same
  simp only [task, Db.task?, Db.parents, Db.aliasesOf, tasks, edges, aliases]

theorem hop_congr {a b : Db} (same : a.toTables = b.toTables) :
    ∀ (front ids next : List Int), hop a ids next front = hop b ids next front
  | [], _, _ => rfl
  | id :: front, ids, next => by
      simp only [hop, task_congr same, hop_congr same front]

theorem hops_congr {a b : Db} (same : a.toTables = b.toTables) :
    ∀ (n : Nat) (ids front : List Int), hops a n ids front = hops b n ids front
  | 0, _, _ => rfl
  | n + 1, ids, front => by
      simp only [hops, hop_congr same, hops_congr same n]

theorem scope_congr {a b : Db} (same : a.toTables = b.toTables) (taskId : Int) (kind : Text) :
    scope taskId kind a = scope taskId kind b := by
  simp only [scope, hops_congr same]

theorem basisKeys_congr {a b : Db} (same : a.toTables = b.toTables) (r : Request) :
    basisKeys r a = basisKeys r b := by
  simp only [basisKeys, scope_congr same]

/-- One row for each key, in order, each with the current epoch of its key. -/
theorem captureEach_ok {id : Text} : ∀ {keys : List Int} {db db' : Db} {u : Unit},
    each keys (fun key => do
      let epoch ← read (scopeEpoch key)
      insertBasis ⟨id, key, epoch⟩) db = .ok (u, db') →
    ∃ rows : List BasisRow, rows.map (·.taskId) = keys ∧
      (∀ b ∈ rows, b.requestId = id ∧ db.epoch? b.taskId = some b.epoch) ∧
      db' = { db with turnBasis := db.turnBasis ++ rows }
  | [], db, db', u, h => by
      refine ⟨[], rfl, by simp, ?_⟩
      rw [each_nil_ok.mp h, List.append_nil]
  | key :: rest, db, db', u, h => by
      obtain ⟨mid, first, later⟩ := each_cons_ok.mp h
      simp only [insertBasis, bind_ok, read_ok, modify_ok, scopeEpoch_ok] at first
      obtain ⟨epoch, _, ⟨current, rfl⟩, _, _, turn, _, _, free, rfl⟩ := first
      obtain ⟨_, rfl⟩ := require_ok.mp turn
      obtain ⟨_, rfl⟩ := require_ok.mp free
      obtain ⟨rows, keysEq, each_, rfl⟩ := captureEach_ok later
      refine ⟨⟨id, key, epoch⟩ :: rows, by simp [keysEq], ?_, by simp⟩
      intro b member
      rcases List.mem_cons.mp member with rfl | member
      · exact ⟨rfl, current⟩
      · exact each_ b member

/-- The rows `Begin` captures for a request. -/
structure Captured (r : Request) (db : Db) (rows : List BasisRow) : Prop where
  own : ∀ b ∈ rows, b.requestId = r.requestId
  current : ∀ b ∈ rows, db.epoch? b.taskId = some b.epoch
  unbound : r.scopeBound = false → rows = []
  keys : r.scopeBound = true → basisKeys r db = .ok (rows.map (·.taskId))

theorem captureBasis_ok {r : Request} {db db' : Db} {u : Unit}
    (h : captureBasis r db = .ok (u, db')) :
    ∃ rows, Captured r db rows ∧ db' = { db with turnBasis := db.turnBasis ++ rows } := by
  unfold captureBasis at h
  split at h
  · rename_i bound
    simp only [bind_ok, read_ok] at h
    obtain ⟨keys, _, ⟨found, rfl⟩, run⟩ := h
    obtain ⟨rows, keysEq, each_, rfl⟩ := captureEach_ok run
    refine ⟨rows, ⟨fun b m => (each_ b m).1, fun b m => (each_ b m).2, ?_, fun _ => ?_⟩, rfl⟩
    · simp [bound]
    · rw [found, keysEq]
  · rename_i unbound
    refine ⟨[], ⟨by simp, by simp, fun _ => rfl, fun bound => absurd bound unbound⟩, ?_⟩
    rw [(pure_ok.mp h).2, List.append_nil]

/-- The first message of a turn. -/
def queryMessage (db : Db) (clk : Clock) (r : Request) : MessageRow :=
  ⟨db.sequence.messages + 1, r.taskId, .user, r.query,
    encode (object (turnSource r.requestId)), clk.now 0⟩

/-- The task of a new turn, open again if it was archived. -/
def Db.reopened (db : Db) (row : TaskRow) : Db :=
  if row.status = .archived then db.replaceTask row row.reopen else db

/-- Its revision then. -/
def TaskRow.reopenedRevision (row : TaskRow) : Int :=
  if row.status = .archived then row.revision + 1 else row.revision

/-- The tables of `base.sql` right before the turn row goes in. -/
def Db.opened (db : Db) (clk : Clock) (r : Request) (row : TaskRow) : Db :=
  (Write.event .harnessBegin r.taskId (clk.now 1)).apply
    ((Write.runtime ⟨some r.taskId, (db.reopened row).runtimeState.version + 1⟩).apply
      ((db.reopened row).insertMessage (queryMessage (db.reopened row) clk r)))

/-- What a created turn found and left. -/
structure Begun (host : Host) (clk : Clock) (r : Request) (c : Counter) (row : TaskRow)
    (payload : Package) (basis : List BasisRow) (db db' : Db) : Prop where
  unretired : db.retired? r.requestId = none
  unknown : db.turn? r.requestId = none
  idle : ∀ t ∈ db.turns, t.taskId = r.taskId → t.status ≠ .pending
  task : db.task? r.taskId = some row
  packed : pack host r c (db.reopened row) = .ok payload
  captured : Captured r (db.opened clk r row) basis
  after : db' = { db.opened clk r row with
    turns := db.turns ++ [newTurn host clk r row.reopenedRevision payload]
    turnBasis := db.turnBasis ++ basis }

theorem reopened_journal (db : Db) (row : TaskRow) :
    (db.reopened row).toJournal = db.toJournal := by
  unfold Db.reopened
  split <;> rfl

theorem opened_journal (db : Db) (clk : Clock) (r : Request) (row : TaskRow) :
    (db.opened clk r row).toJournal = db.toJournal :=
  reopened_journal db row

theorem reopenTask_ok {t : Task} {row : TaskRow} {db db' : Db} {revision : Int}
    (found : db.task? t.id = some row) (status : t.status = row.status)
    (rev : t.revision = row.revision) (h : reopenTask t db = .ok (revision, db')) :
    revision = row.reopenedRevision ∧ db' = db.reopened row := by
  unfold reopenTask at h
  unfold TaskRow.reopenedRevision Db.reopened
  split at h
  · rename_i archived
    simp only [bind_ok, pure_ok] at h
    obtain ⟨_, _, update, rfl, rfl⟩ := h
    rw [if_pos (status ▸ archived), if_pos (status ▸ archived)]
    rcases updateTask_ok update with ⟨old, same, rfl⟩ | ⟨missing, _⟩
    · rw [found] at same
      cases same
      exact ⟨by rw [rev], rfl⟩
    · rw [found] at missing
      cases missing
  · rename_i open_
    rw [if_neg (status ▸ open_), if_neg (status ▸ open_)]
    obtain ⟨rfl, rfl⟩ := pure_ok.mp h
    exact ⟨rev, rfl⟩

theorem insertTurn_ok {new : TurnRow} {db db' : Db} {u : Unit}
    (h : insertTurn new db = .ok (u, db')) :
    db.retired? new.requestId = none ∧ db.turn? new.requestId = none ∧
      db' = { db with turns := db.turns ++ [new] } := by
  simp only [insertTurn, bind_ok, require_ok, modify_ok, Option.isNone_iff_eq_none] at h
  obtain ⟨_, _, ⟨unretired, rfl⟩, _, _, ⟨unknown, rfl⟩, _, _, ⟨_, rfl⟩, _, _, task, rfl⟩ := h
  obtain ⟨_, rfl⟩ := requireTask_ok task
  exact ⟨unretired, unknown, rfl⟩

theorem createTurn_ok {host : Host} {clk : Clock} {r : Request} {c : Counter} {db db' : Db}
    {out : Turn} (unretired : db.retired? r.requestId = none)
    (unknown : db.turn? r.requestId = none)
    (h : createTurn host clk r c db = .ok (out, db')) :
    ∃ row payload basis, Begun host clk r c row payload basis db db' ∧
      out = { (newTurn host clk r row.reopenedRevision payload).turn with created := true } := by
  simp only [createTurn, bind_ok, read_ok, pure_ok, require_ok] at h
  obtain ⟨_, _, ⟨idle, rfl⟩, t, start, ⟨found, rfl⟩, revision, _, opening, payload, mid,
    ⟨packed, rfl⟩, ev, _, appended, _, _, active, _, _, event, _, _, inserted, _, _, capture,
    written, fin, ⟨read, rfl⟩, rfl, rfl⟩ := h
  obtain ⟨row, rowFound, tid, status, rev, _⟩ := task_ok found
  obtain ⟨rfl, rfl⟩ := reopenTask_ok (tid ▸ rowFound) status rev opening
  obtain ⟨role, roleText, _, _, _, rfl⟩ := append_ok appended
  have user : role = .user := by
    have : Role.ofText? (Text.lit "user") = some Role.user := by decide
    rw [this] at roleText
    exact (Option.some.inj roleText).symm
  subst user
  have journal := opened_journal start clk r row
  rw [setActiveTask_ok active] at event
  rw [insertEvent_ok event] at inserted
  obtain ⟨_, _, rfl⟩ := insertTurn_ok inserted
  obtain ⟨basis, captured, rfl⟩ := captureBasis_ok capture
  have turns : (start.opened clk r row).turns = start.turns := congrArg Journal.turns journal
  obtain ⟨t', live, rfl⟩ := turn_ok.mp read
  have last : ({ start.opened clk r row with
      turns := start.turns ++ [newTurn host clk r row.reopenedRevision payload]
      turnBasis := start.turnBasis ++ basis } : Db).turn? r.requestId =
        some (newTurn host clk r row.reopenedRevision payload) := by
    show (start.turns ++ [newTurn host clk r row.reopenedRevision payload]).find? _ = _
    rw [List.find?_append]
    have none_ : start.turns.find? (·.requestId == r.requestId) = none := unknown
    rw [none_]
    simp [newTurn]
  have after : ({ start.opened clk r row with
        turns := (start.opened clk r row).turns ++
          [newTurn host clk r row.reopenedRevision payload]
        turnBasis := (start.opened clk r row).turnBasis ++ basis } : Db) =
      { start.opened clk r row with
        turns := start.turns ++ [newTurn host clk r row.reopenedRevision payload]
        turnBasis := start.turnBasis ++ basis } := by
    rw [turns, congrArg Journal.turnBasis journal]
  refine ⟨row, payload, basis, ⟨unretired, unknown, ?_, rowFound, packed, ?_, after⟩, ?_⟩
  · intro t member same pending
    simp only [Bool.not_eq_true', List.any_eq_false, Bool.and_eq_true, beq_iff_eq, not_and] at idle
    exact idle t member same pending
  · refine ⟨captured.own, captured.current, captured.unbound, fun bound => ?_⟩
    rw [← captured.keys bound]
    refine basisKeys_congr ?_ r
    rfl
  · have same : t' = newTurn host clk r row.reopenedRevision payload :=
      Option.some.inj (live.symm.trans (after ▸ last))
    rw [same]

/-- A known request ID is only ever answered; an unknown one is recorded once. -/
theorem begin_ok {host : Host} {clk : Clock} {input : Request} {custom : List CustomCounter}
    {db db' : Db} {out : Turn} (h : begin host clk input custom db = .ok (out, db')) :
    ∃ r c, normalizeRequest input custom = .ok (r, c) ∧
      ((∃ old, db.retired? r.requestId = none ∧ db.turn? r.requestId = some old ∧
          old.fingerprint = fingerprint host r.toJson ∧
          out = { old.turn with replayed := true } ∧ db' = db) ∨
        ∃ row payload basis, Begun host clk r c row payload basis db db' ∧
          out = { (newTurn host clk r row.reopenedRevision payload).turn with created := true }) := by
  unfold begin at h
  cases normal : normalizeRequest input custom with
  | error e =>
    rw [normal] at h
    simp at h
  | ok rc =>
    obtain ⟨r, c⟩ := rc
    rw [normal] at h
    dsimp only [beginNormal] at h
    refine ⟨r, c, rfl, ?_⟩
    cases unretired : db.retired? r.requestId with
    | some old =>
      rw [unretired] at h
      dsimp only at h
      split at h <;> simp [problem] at h
    | none =>
      rw [unretired] at h
      cases unknown : db.turn? r.requestId with
      | none =>
        rw [unknown] at h
        exact .inr (createTurn_ok unretired unknown h)
      | some old =>
        rw [unknown] at h
        dsimp only at h
        split at h
        · simp [problem] at h
        · rename_i same
          cases h
          exact .inl ⟨old, rfl, rfl, by simpa using same, rfl, rfl⟩

/-! ## Commit -/

/-- The writes of `setFact`. -/
def Write.IsFact (w : Write) : Prop := ∃ r, w = .insertFact r

theorem setFacts_evolves (clk : Clock) (taskId : Int) : ∀ (n : Nat) (facts : List FactUpdate),
    Keeps (Evolves Write.IsFact) (setFacts clk taskId n facts)
  | _, [] => .pure Evolves.refl_all _
  | n, _ :: rest =>
      .bind Evolves.trans_all (keeps_setFact (fun r => ⟨r, rfl⟩) _ _ _) fun _ =>
        setFacts_evolves clk taskId (n + 1) rest

/-- Facts leave the other tables alone. -/
theorem evolves_facts {a b : Db} (h : Evolves Write.IsFact a b) :
    b.tasks = a.tasks ∧ b.messages = a.messages ∧ b.dependencies = a.dependencies ∧
      b.aliases = a.aliases := by
  refine h.rel (R := fun a b => b.tasks = a.tasks ∧ b.messages = a.messages ∧
    b.dependencies = a.dependencies ∧ b.aliases = a.aliases) (fun _ => ⟨rfl, rfl, rfl, rfl⟩) ?_ ?_
  · rintro a b c ⟨t, m, d, l⟩ ⟨t', m', d', l'⟩
    exact ⟨t'.trans t, m'.trans m, d'.trans d, l'.trans l⟩
  · rintro w db ⟨r, rfl⟩ _
    exact ⟨rfl, rfl, rfl, rfl⟩

theorem recordReference_ok {now : Stamp} {id : Text} {ref : ProvenanceRef} {db db' : Db} {u : Unit}
    (h : recordReference now id ref db = .ok (u, db')) :
    ∃ new : ProvenanceRow, new.requestId = id ∧
      db' = { db with turnProvenance := db.turnProvenance ++ [new] } := by
  unfold recordReference at h
  cases known : EdgeKind.ofText? ref.kind with
  | none =>
    rw [known] at h
    exact (fail_ok.mp h).elim
  | some kind =>
    rw [known] at h
    simp only [insertProvenance, bind_ok, require_ok, modify_ok] at h
    obtain ⟨_, _, turn, _, _, ⟨_, rfl⟩, rfl⟩ := h
    obtain ⟨_, rfl⟩ := require_ok.mp turn
    exact ⟨_, rfl, rfl⟩

theorem recordProvenance_ok {clk : Clock} {id : Text} : ∀ {n : Nat} {refs : List ProvenanceRef}
    {db db' : Db} {u : Unit}, recordProvenance clk id n refs db = .ok (u, db') →
    ∃ rows : List ProvenanceRow, (∀ p ∈ rows, p.requestId = id) ∧
      db' = { db with turnProvenance := db.turnProvenance ++ rows }
  | _, [], db, db', u, h => by
      refine ⟨[], by simp, ?_⟩
      rw [(pure_ok.mp h).2, List.append_nil]
  | n, ref :: rest, db, db', u, h => by
      simp only [recordProvenance, bind_ok] at h
      obtain ⟨_, mid, first, later⟩ := h
      obtain ⟨new, mine, rfl⟩ := recordReference_ok first
      obtain ⟨rows, own, rfl⟩ := recordProvenance_ok later
      refine ⟨new :: rows, ?_, by simp⟩
      intro p member
      rcases List.mem_cons.mp member with rfl | member
      · exact mine
      · exact own p member

/-- The last message of a turn. -/
def replyMessage (db : Db) (clk : Clock) (id : Text) (taskId : Int) (reply : Reply) : MessageRow :=
  ⟨db.sequence.messages + 1, taskId, .assistant, reply.text, encode (object (turnSource id)),
    clk.now 0⟩

/-- What a committed turn found and left: `facts` is the database once the reply's facts are in,
    `snapshot` the one the task has afterwards. -/
structure Committed (host : Host) (clk : Clock) (id : Text) (generation : Int) (reply : Reply)
    (t : TurnRow) (row : TaskRow) (facts : Db) (snapshot : Json) (edges : List ProvenanceRow)
    (db db' : Db) : Prop where
  live : db.turn? id = some t
  pending : t.status = .pending
  current : t.generation = generation
  fresh : validateBasis id db = .ok ()
  task : db.task? t.taskId = some row
  revision : row.revision = t.taskRevision
  settled : ∀ c ∈ db.toolCalls, c.requestId = id → c.status ≠ .started
  factual : Evolves Write.IsFact (db.insertMessage (replyMessage db clk id t.taskId reply)) facts
  own : ∀ p ∈ edges, p.requestId = id
  after : db' = { (Write.event .harnessCommit t.taskId (clk.now 2)).apply
      (facts.replaceTask row (row.withSnapshot snapshot)) with
    turnProvenance := db.turnProvenance ++ edges
    turns := Table.update (·.requestId == id)
      (TurnRow.commit (encode reply.toJson) (fingerprint host reply.toJson) (clk.now 1)) db.turns }

theorem commitChecks_ok {id : Text} {generation : Int} {reply : Reply} {db : Db} {t : TurnRow}
    {k : Task} (h : commitChecks id generation reply db = .ok (t, k)) :
    db.turn? id = some t ∧ t.status = .pending ∧ t.generation = generation ∧
      validateBasis id db = .ok () ∧ (∃ row, db.task? t.taskId = some row ∧
        row.revision = t.taskRevision ∧ k.id = t.taskId) ∧
      ∀ c ∈ db.toolCalls, c.requestId = id → c.status ≠ .started := by
  simp only [commitChecks, except_bind_ok] at h
  obtain ⟨t', current, ⟨⟩, fresh, request, _, k', found, run⟩ := h
  obtain ⟨live, status, fenced⟩ := pending_ok.mp current
  obtain ⟨row, exists_, tid, _, rev, _⟩ := task_ok found
  split at run
  · simp [problem] at run
  · simp only [except_bind_ok] at run
    obtain ⟨_, _, run⟩ := run
    split at run
    · simp [problem] at run
    · rename_i same
      split at run
      · simp [problem] at run
      · rename_i settled
        cases run
        refine ⟨live, status, fenced, fresh, ⟨row, exists_, ?_, tid⟩, ?_⟩
        · rw [← rev]
          simpa using same
        · intro c member own started
          simp only [List.any_eq_true, Bool.and_eq_true, beq_iff_eq, not_exists, not_and] at settled
          exact settled c member own started

theorem commitPending_ok {host : Host} {clk : Clock} {id : Text} {generation : Int} {reply : Reply}
    {db db' : Db} {out : Turn} (h : commitPending host clk id generation reply db = .ok (out, db')) :
    ∃ t row facts snapshot edges,
      Committed host clk id generation reply t row facts snapshot edges db db' := by
  simp only [commitPending, bind_ok, read_ok] at h
  obtain ⟨⟨t, k⟩, start, ⟨checks, rfl⟩, ev, _, appended, _, facts, factual, _, _, update, _, _,
    edges, _, _, turns, _, _, event, _, rfl⟩ := h
  obtain ⟨live, status, fenced, fresh, ⟨row, found, rev, tid⟩, settled⟩ := commitChecks_ok checks
  obtain ⟨role, roleText, _, _, _, rfl⟩ := append_ok appended
  have assistant : role = .assistant := by
    have : Role.ofText? (Text.lit "assistant") = some Role.assistant := by decide
    rw [this] at roleText
    exact (Option.some.inj roleText).symm
  subst assistant
  dsimp only at factual update event
  rw [tid] at factual update event
  have factsEvolve := setFacts_evolves clk _ _ _ _ _ _ factual
  have sameTasks : facts.task? t.taskId = some row := by
    unfold Db.task?
    rw [(evolves_facts factsEvolve).1]
    exact found
  obtain ⟨rows, own, rfl⟩ := recordProvenance_ok edges
  rcases updateTask_ok update with ⟨old, same, rfl⟩ | ⟨missing, _⟩
  · rw [sameTasks] at same
    cases same
    rw [insertEvent_ok event, modify_ok.mp turns]
    have journal : facts.toJournal = start.toJournal := factsEvolve.journal
    refine ⟨t, row, facts, encode (object (reply.snapshot.getD k.snapshot)), rows, ⟨live, status,
      fenced, fresh, found, rev, settled, factsEvolve, own, ?_⟩⟩
    rw [← congrArg Journal.turns journal, ← congrArg Journal.turnProvenance journal]
    rfl
  · rw [sameTasks] at missing
    cases missing

/-- A committed turn answers its reply again; a pending one is committed once. -/
theorem commit_ok {host : Host} {clk : Clock} {id : Text} {generation : Int} {reply : Reply}
    {db db' : Db} {out : Turn} (h : commit host clk id generation reply db = .ok (out, db')) :
    (∃ t, db.turn? id = some t ∧ t.status = .committed ∧ t.generation = generation ∧
        t.commitHash = some (fingerprint host reply.toJson) ∧
        out = { t.turn with replayed := true } ∧ db' = db) ∨
      ∃ t row facts snapshot edges,
        Committed host clk id generation reply t row facts snapshot edges db db' := by
  unfold commit at h
  split at h
  · simp [problem] at h
  · cases read : turnRow id db with
    | error e =>
      rw [read] at h
      simp at h
    | ok t =>
      rw [read] at h
      dsimp only at h
      split at h
      · rename_i committed
        split at h
        · simp [problem] at h
        · rename_i current
          split at h
          · simp [problem] at h
          · rename_i same
            cases h
            exact .inl ⟨t, turnRow_ok.mp read, committed, by simpa using current,
              by simpa using same, rfl, rfl⟩
      · exact .inr (commitPending_ok h)

/-! ## The journal afterwards -/

theorem Begun.journal {host : Host} {clk : Clock} {r : Request} {c : Counter} {row : TaskRow}
    {payload : Package} {basis : List BasisRow} {db db' : Db}
    (h : Begun host clk r c row payload basis db db') :
    db'.toJournal = { db.toJournal with
      turns := db.turns ++ [newTurn host clk r row.reopenedRevision payload]
      turnBasis := db.turnBasis ++ basis } := by
  rw [h.after]
  show { (db.opened clk r row).toJournal with
    turns := db.turns ++ [newTurn host clk r row.reopenedRevision payload]
    turnBasis := db.turnBasis ++ basis } = _
  rw [opened_journal]

theorem Committed.journal {host : Host} {clk : Clock} {id : Text} {generation : Int}
    {reply : Reply} {t : TurnRow} {row : TaskRow} {facts : Db} {snapshot : Json}
    {edges : List ProvenanceRow} {db db' : Db}
    (h : Committed host clk id generation reply t row facts snapshot edges db db') :
    db'.toJournal = { db.toJournal with
      turnProvenance := db.turnProvenance ++ edges
      turns := Table.update (·.requestId == id)
        (TurnRow.commit (encode reply.toJson) (fingerprint host reply.toJson) (clk.now 1))
        db.turns } := by
  rw [h.after]
  show { facts.toJournal with
    turnProvenance := db.turnProvenance ++ edges
    turns := Table.update (·.requestId == id)
      (TurnRow.commit (encode reply.toJson) (fingerprint host reply.toJson) (clk.now 1))
      db.turns } = _
  rw [h.factual.journal]
  rfl

/-- The basis moves by what the evidence itself took; the call is completed. -/
theorem Finished.journal {clk : Clock} {id callId : Text} {raw : Json} {t : TurnRow}
    {call : ToolRow} {db db' : Db} (h : Finished clk id callId raw t call db db') :
    ∃ taskDelta globalDelta, db'.toJournal = { db.toJournal with
      turnBasis := moveBasis id 0 globalDelta (moveBasis id t.taskId taskDelta db.turnBasis)
      toolCalls := Table.update (fun c => c.requestId == id && c.callId == callId)
        (ToolRow.complete raw (db.sequence.messages + 1)) db.toolCalls } := by
  obtain ⟨before, after, _, _, globalBefore, globalAfter, _, _, rfl⟩ := h.taskEpoch
  exact ⟨after - before, globalAfter - globalBefore, rfl⟩

end Cmpath
