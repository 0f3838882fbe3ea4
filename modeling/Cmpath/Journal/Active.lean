import Cmpath.Journal.Facts

/-!
# The active task

`runtime_state` names the task a host works on. Three operations write it, `Begin`, `resume` and
`delete_task`, each with the version raised by one (`Switch`), and each leaves it at an open task or
at none; `archive` is refused for the task it names.
-/

namespace Cmpath
open Lib Lib.Txn

/-- The task is there and open. -/
def Db.OpenTask (db : Db) (id : Int) : Prop :=
  ∃ row, db.task? id = some row ∧ row.status = .opened

/-- The active task, if there is one, is open. -/
def Db.ActiveOpen (db : Db) : Prop :=
  ∀ id, db.runtimeState.activeTask = some id → db.OpenTask id

/-- What a call does to the active task: nothing, or it sets or clears it. -/
inductive Switch (a b : Db) : Bool → Prop where
  | still (state : b.runtimeState = a.runtimeState)
      (kept : ∀ id, a.runtimeState.activeTask = some id → a.OpenTask id → b.OpenTask id) :
      Switch a b false
  | set (id : Int) (state : b.runtimeState = ⟨some id, a.runtimeState.version + 1⟩)
      (here : b.OpenTask id) : Switch a b true
  | cleared (state : b.runtimeState = ⟨none, a.runtimeState.version + 1⟩) : Switch a b true

namespace Switch

variable {a b : Db} {switches : Bool}

theorem version (s : Switch a b switches) :
    b.runtimeState.version = a.runtimeState.version + if switches then 1 else 0 := by
  cases s with
  | still state => simp [state]
  | set id state => simp [state]
  | cleared state => simp [state]

theorem activeOpen (s : Switch a b switches) (h : a.ActiveOpen) : b.ActiveOpen := by
  intro id active
  cases s with
  | still state kept =>
    rw [state] at active
    exact kept id active (h id active)
  | set new state here =>
    rw [state] at active
    cases active
    exact here
  | cleared state =>
    rw [state] at active
    cases active

end Switch

/-! ## Rows of tasks -/

section Rows

variable {a b : Db} {id : Int}

theorem Db.OpenTask.of_tasks (same : b.tasks = a.tasks) (h : a.OpenTask id) : b.OpenTask id := by
  obtain ⟨row, found, open_⟩ := h
  exact ⟨row, (task?_of_tasks same id).trans found, open_⟩

theorem Db.OpenTask.additive (h : a.OpenTask id) (evolves : Evolves Write.Additive a b) :
    b.OpenTask id := by
  obtain ⟨row, found, open_⟩ := h
  have same := task?_id found
  subst same
  exact ⟨row, task?_additive evolves found, open_⟩

section Replaced

variable {old new : TaskRow} (tasks : b.tasks = Table.replace (·.id == old.id) new a.tasks)
  (found : a.task? old.id = some old) (same : new.id = old.id)

include tasks found same

theorem Db.OpenTask.written (open_ : new.status = .opened) : b.OpenTask old.id :=
  ⟨new, by rw [task?_replace found same tasks, if_pos rfl], open_⟩

theorem Db.OpenTask.beside (h : a.OpenTask id) (apart : id ≠ old.id) : b.OpenTask id := by
  obtain ⟨row, here, open_⟩ := h
  refine ⟨row, ?_, open_⟩
  rw [task?_replace found same tasks, if_neg apart]
  exact here

theorem Db.OpenTask.replace (h : a.OpenTask id)
    (kept : old.status = .opened → new.status = .opened) : b.OpenTask id := by
  by_cases mine : id = old.id
  · subst mine
    obtain ⟨row, here, open_⟩ := h
    rw [found] at here
    cases here
    exact written tasks found same (kept open_)
  · exact beside tasks found same h mine

end Replaced

end Rows

/-- A write of another table than `runtime_state`. -/
def Write.Unswitching : Write → Prop
  | .runtime _ => False
  | _ => True

theorem Write.touchAll_runtimeState (ts : List Touch) (db : Db) :
    (db.touchAll ts).runtimeState = db.runtimeState :=
  congrArg Tables.runtimeState (touchAll_tables ts db).1

theorem Write.runtimeState {w : Write} (kind : w.Unswitching) (db : Db) :
    (w.apply db).runtimeState = db.runtimeState := by
  cases w with
  | runtime => exact kind.elim
  | deleteTasks | deleteMessages | deleteFacts | deleteDependencies | deleteAliases =>
    exact Write.touchAll_runtimeState _ _
  | _ => rfl

theorem Evolves.runtimeState {a b : Db} (h : Evolves Write.Unswitching a b) :
    b.runtimeState = a.runtimeState :=
  h.rel (R := fun a b => b.runtimeState = a.runtimeState) (fun _ => rfl)
    (fun _ _ _ first second => second.trans first) fun _ db kind _ => Write.runtimeState kind db

/-! ## The engine -/

section Engine

variable {host : Host} {clk : Clock} {db db' : Db}

theorem Change.openTask {kind : Kind} (c : Change host kind db db') {id : Int}
    (h : db.OpenTask id) : db'.OpenTask id := by
  cases c with
  | additive evolves => exact h.additive evolves
  | begun clk r c task payload basis input custom normal begun =>
    have tasks : db'.tasks = (db.reopened task).tasks := by rw [begun.after]; rfl
    rw [reopened_tasks] at tasks
    split at tasks
    · have found : db.task? task.id = some task := by rw [task?_id begun.task, begun.task]
      exact .replace tasks found rfl h fun _ => rfl
    · exact h.of_tasks tasks
  | committed clk id generation reply t task facts snapshot edges done =>
    have factTasks : facts.tasks = db.tasks := (evolves_facts done.factual).1
    have tasks : db'.tasks = Table.replace (·.id == task.id) (task.withSnapshot snapshot) db.tasks := by
      rw [done.after, ← factTasks]
      rfl
    have found : db.task? task.id = some task := by rw [task?_id done.task, done.task]
    exact .replace tasks found rfl h fun open_ => open_
  | toolFinished clk id callId raw t call live pending known started finished =>
    obtain ⟨_, _, _, _, _, _, _, _, rfl⟩ := finished.taskEpoch
    exact h.of_tasks rfl
  | retired retiredAt cutoff =>
    have tables := (retireAll_tables retiredAt (db.candidateIds cutoff) db).1
    exact h.of_tasks (congrArg Tables.tasks tables)
  | _ => exact h.of_tasks rfl

/-- A new turn makes its task the active one and opens it. -/
theorem Begun.switch {r : Request} {c : Counter} {row : TaskRow} {payload : Package}
    {basis : List BasisRow} (h : Begun host clk r c row payload basis db db') : Switch db db' true := by
  have version : (db.reopened row).runtimeState = db.runtimeState := by
    unfold Db.reopened
    split <;> rfl
  refine .set r.taskId ?_ ?_
  · rw [h.after, ← version]
    rfl
  · have tasks : db'.tasks = (db.reopened row).tasks := by rw [h.after]; rfl
    have id := task?_id h.task
    rw [reopened_tasks] at tasks
    split at tasks
    · have found : db.task? row.id = some row := by rw [id, h.task]
      rw [← id]
      exact .written tasks found rfl rfl
    · rename_i open_
      refine ⟨row, (task?_of_tasks tasks _).trans h.task, ?_⟩
      cases status : row.status with
      | opened => rfl
      | archived => exact absurd status open_

/-- The other engine operations leave `runtime_state` alone. -/
theorem Op.runtimeState {op : Op} {out : Response} (h : op.run host clk db = .ok (out, db'))
    (other : ∀ r custom, op ≠ .begin r custom) : db'.runtimeState = db.runtimeState := by
  cases op with
  | createTask input =>
    obtain ⟨_, run, _⟩ := responding_ok.mp h
    exact (createTask_rows (fun _ => trivial) (fun _ => trivial) (fun _ => trivial) _ _ _ _ _ _
      run).runtimeState
  | appendBatch inputs =>
    obtain ⟨_, run, _⟩ := responding_ok.mp h
    exact (keeps_appendBatch (fun _ => trivial) _ _ _ _ _ run).runtimeState
  | setFact taskId f =>
    obtain ⟨_, run, _⟩ := responding_ok.mp h
    exact (keeps_setFact (fun _ => trivial) _ _ _ _ _ _ run).runtimeState
  | begin r custom => exact absurd rfl (other r custom)
  | commit id generation reply =>
    obtain ⟨_, run, _⟩ := responding_ok.mp h
    obtain ⟨_, _, _, _, _, _, rfl⟩ | ⟨t, row, facts, snapshot, edges, done⟩ := commit_ok run
    · rfl
    · have quiet : ∀ w, Write.IsFact w → w.Unswitching := by
        rintro w ⟨_, rfl⟩
        trivial
      have factual := (done.factual.mono quiet).runtimeState
      rw [done.after]
      exact factual
  | finishTool id generation callId result tokens =>
    obtain ⟨_, run, _⟩ := responding_ok.mp h
    obtain ⟨t, call, live, pending, _, known, ⟨_, rfl⟩ | ⟨started, finished⟩⟩ := finishTool_ok run
    · rfl
    · obtain ⟨_, _, _, _, _, _, _, _, rfl⟩ := finished.taskEpoch
      rfl
  | applyRetention cutoff planHash =>
    obtain ⟨_, run, _⟩ := responding_ok.mp h
    obtain ⟨before, _, _, _, rfl⟩ := applyRetention_ok run
    exact congrArg Tables.runtimeState (retireAll_tables _ _ db).1
  | recover id generation =>
    obtain ⟨_, run, _⟩ := responding_ok.mp h
    obtain ⟨_, _, _, _, _, _, _, rfl⟩ := recover_ok run
    rfl
  | abort id generation =>
    obtain ⟨_, run, _⟩ := responding_ok.mp h
    obtain ⟨_, _, _, _, rfl⟩ := abort_ok run
    rfl
  | actionEligible id generation callId ttlMs =>
    obtain ⟨_, run, _⟩ := responding_ok.mp h
    obtain ⟨_, _, _, _, _, _, _, _, _, _, _, _, _, _, _, rfl⟩ := actionEligible_ok run
    rfl
  | startTool id generation callId name args =>
    obtain ⟨_, run, _⟩ := responding_ok.mp h
    obtain ⟨_, _, _, _, _, _, ⟨_, _, _, _, rfl⟩ | ⟨_, _, _, _, rfl⟩⟩ := startTool_ok run
    · rfl
    · rfl
  | recordModelRequest id generation callId payload units counting =>
    obtain ⟨_, run, _⟩ := responding_ok.mp h
    obtain ⟨_, _, _, _, _, _, _, _, ⟨_, _, rfl⟩ | ⟨_, _, rfl⟩⟩ := recordModelRequest_ok run
    · rfl
    · rfl
  | recordModelResponse id generation callId response =>
    obtain ⟨_, run, _⟩ := responding_ok.mp h
    obtain ⟨_, _, _, _, _, _, _, ⟨_, _, rfl⟩ | ⟨_, rfl⟩⟩ := recordModelResponse_ok run
    · rfl
    · rfl
  | retentionPlan | task | turn | tools | modelCalls | search | preview =>
    obtain ⟨_, run, _⟩ := responding_ok.mp h
    rw [(read_ok.mp run).2]

/-- An engine operation sets the active task where it creates a turn, and nowhere else. -/
def Op.switches : Op → Response → Bool
  | .begin _ _, .turn t => t.created
  | _, _ => false

theorem Op.switch {op : Op} {out : Response} (h : op.run host clk db = .ok (out, db')) :
    Switch db db' (op.switches out) := by
  have still : db'.runtimeState = db.runtimeState → Switch db db' false := fun same =>
    .still same fun _ _ here => (Op.change h).openTask here
  cases op with
  | begin r custom =>
    obtain ⟨t, run, rfl⟩ := responding_ok.mp h
    obtain ⟨_, _, _, ⟨old, _, _, _, rfl, rfl⟩ | ⟨row, payload, basis, begun, rfl⟩⟩ := begin_ok run
    · exact .still rfl fun _ _ here => here
    · exact begun.switch
  | _ => exact still (Op.runtimeState h (by simp))

end Engine

/-! ## TaskMemory -/

namespace TaskMemory

variable {clk : Clock} {db db' : Db} {taskId : Int}

theorem event_runtimeState {kind : EventKind} {now : Stamp} {u : Unit}
    (h : event kind taskId now db = .ok (u, db')) : db'.runtimeState = db.runtimeState := by
  rw [insertEvent_ok h]
  rfl

theorem deleteMessages_runtimeState {p : MessageRow → Bool} {u : Unit}
    (h : deleteMessages p db = .ok (u, db')) : db'.runtimeState = db.runtimeState := by
  simp only [deleteMessages, requireUncited, bind_ok, require_ok, modify_ok] at h
  obtain ⟨_, a, ⟨_, checked⟩, _, b, facts, rest⟩ := h
  rw [rest, facts, checked]
  simp only [Db.deleteMessages, Db.deleteFacts, Write.touchAll_runtimeState]

theorem deleted_runtimeState {u : Unit} (h : Cmpath.deleteTask taskId db = .ok (u, db'))
    (idle : db.runtimeState.activeTask ≠ some taskId) : db'.runtimeState = db.runtimeState := by
  simp only [Cmpath.deleteTask, bind_ok, require_ok, modify_ok] at h
  obtain ⟨_, a, ⟨_, checked⟩, _, b, edges, _, c, aliases, _, d, facts, _, e, messages, _, f, gone,
    left⟩ := h
  have same : f.runtimeState = db.runtimeState := by
    rw [gone, Db.deleteTasks, deleteMessages_runtimeState messages, facts, aliases, edges, checked]
    simp only [Db.deleteFacts, Db.deleteAliases, Db.deleteDependencies, Write.touchAll_runtimeState]
  have other : (f.runtimeState.activeTask == some taskId) = false := by
    rw [same, beq_eq_false_iff_ne]
    exact idle
  rw [left, if_neg (by rw [other]; exact Bool.false_ne_true), same]

/-- `resume` sets the active task, and opens it. -/
theorem resume_switch {expectedVersion : Option Int} {out : Json}
    (h : resume clk taskId expectedVersion db = .ok (out, db')) :
    Switch db db' true ∧ expectedVersion.all (· == db.runtimeState.version) = true := by
  obtain ⟨row, found, tasks⟩ := resume_ok h
  simp only [resume, bind_ok, ensure_ok, require_ok] at h
  obtain ⟨_, _, ⟨_, rfl⟩, _, _, read, _, start, ⟨version, rfl⟩, _, active, state, run⟩ := h
  obtain ⟨same, rfl⟩ := taskRow_ok read
  rw [found] at same
  cases same
  have runtime : active.runtimeState = ⟨some taskId, start.runtimeState.version + 1⟩ := by
    rw [setActiveTask_ok state]
    rfl
  have here : db'.OpenTask taskId := by
    split at tasks
    · have known : start.task? row.id = some row := by rw [task?_id found, found]
      rw [← task?_id found]
      exact .written tasks known rfl rfl
    · rename_i open_
      refine ⟨row, (task?_of_tasks tasks _).trans found, ?_⟩
      cases status : row.status with
      | opened => rfl
      | archived => exact absurd status open_
  refine ⟨.set taskId ?_ here, version⟩
  rw [← runtime]
  split at run
  · simp only [bind_ok, pure_ok] at run
    obtain ⟨_, mid, update, _, _, logged, rfl, rfl⟩ := run
    rw [event_runtimeState logged]
    have keep : ∀ r : TaskRow, { r with status := .opened, revision := r.revision + 1 }.id = r.id :=
      fun _ => rfl
    have evolves : Evolves Write.Unswitching active mid :=
      keeps_updateTask (fun _ _ _ => trivial) _ keep _ _ _ update
    exact evolves.runtimeState
  · simp only [bind_ok, pure_ok] at run
    obtain ⟨_, _, logged, rfl, rfl⟩ := run
    exact event_runtimeState logged

theorem archive_switch {u : Unit} (h : archive clk taskId db = .ok (u, db')) :
    Switch db db' false := by
  obtain ⟨row, found, tasks⟩ := archive_ok h
  have evolves : Evolves Write.Unswitching db db' :=
    keeps_archive clk (fun _ _ _ => trivial) (fun _ _ _ => trivial) _ _ _ _ h
  have runtime := evolves.runtimeState
  simp only [archive, bind_ok, require_ok] at h
  obtain ⟨_, _, read, _, start, ⟨idle, rfl⟩, _⟩ := h
  obtain ⟨_, rfl⟩ := taskRow_ok read
  refine .still runtime fun id active here => ?_
  -- the archived task is another one
  have apart : id ≠ row.id := by
    rintro rfl
    rw [active, task?_id found] at idle
    simp at idle
  have known : start.task? row.id = some row := by rw [task?_id found, found]
  exact .beside tasks known rfl here apart

theorem deleteTask_switch {u : Unit} (h : deleteTask clk taskId db = .ok (u, db')) :
    Switch db db' (db.runtimeState.activeTask == some taskId) := by
  have tasks := (deleteTask_ok h).2
  simp only [deleteTask, bind_ok, require_ok, read_ok, Except.ok.injEq] at h
  obtain ⟨row, _, read, _, _, ⟨_, same⟩, active, start, ⟨rfl, rfl⟩, run⟩ := h
  obtain ⟨_, rfl⟩ := taskRow_ok read
  subst same
  split at run
  · rename_i mine
    rw [mine]
    simp only [bind_ok] at run
    obtain ⟨_, mid, state, _, gone, deleted, logged⟩ := run
    have cleared : mid.runtimeState = ⟨none, start.runtimeState.version + 1⟩ := by
      rw [setActiveTask_ok state]
      rfl
    refine .cleared ?_
    rw [event_runtimeState logged, deleted_runtimeState deleted (by rw [cleared]; simp), cleared]
  · rename_i other
    simp only [bind_ok] at run
    obtain ⟨_, gone, deleted, logged⟩ := run
    have idle : start.runtimeState.activeTask ≠ some taskId := by simpa using other
    have no : (start.runtimeState.activeTask == some taskId) = false := by simpa using idle
    rw [no]
    refine .still ?_ ?_
    · rw [event_runtimeState logged, deleted_runtimeState deleted idle]
    · rintro id active ⟨r, found, open_⟩
      refine ⟨r, ?_, open_⟩
      have apart : id ≠ taskId := by
        rintro rfl
        exact idle active
      unfold Db.task?
      rw [tasks]
      refine (Table.find?_delete fun x _ hit => ?_).trans found
      rw [beq_iff_eq.mp hit]
      simpa using apart

end TaskMemory

/-- A call of `TaskMemory` sets the active task in `resume` and clears it where it deletes it. -/
def MemoryOp.switches (db : Db) : MemoryOp → Bool
  | .resume _ _ => true
  | .deleteTask taskId => db.runtimeState.activeTask == some taskId
  | _ => false

theorem MemoryOp.switch {host : Host} {clk : Clock} {op : MemoryOp} {db db' : Db} {out : Response}
    (h : op.run host clk db = .ok (out, db')) : Switch db db' (op.switches db) := by
  cases op with
  | createTask title parents aliases snapshot =>
    obtain ⟨_, run, _⟩ := responding_ok.mp h
    have evolves : Evolves Write.Unswitching db db' :=
      TaskMemory.createTask_rows clk (fun _ => trivial) (fun _ => trivial) (fun _ => trivial)
        (fun _ _ _ => trivial) _ _ _ _ _ _ _ _ run
    refine .still evolves.runtimeState fun id _ here => here.additive ?_
    exact (TaskMemory.keeps_createTask _ _ _ _ _ _ _ _ _ run).mono fun _ => Write.Silent.additive
  | setSnapshot taskId snapshot expectedRevision =>
    obtain ⟨_, run, _⟩ := responding_ok.mp h
    obtain ⟨row, found, _, tasks⟩ := TaskMemory.setSnapshot_ok run
    have evolves : Evolves Write.Unswitching db db' :=
      TaskMemory.keeps_setSnapshot clk (fun _ _ _ => trivial) (fun _ _ _ => trivial) _ _ _ _ _ _ run
    have known : db.task? row.id = some row := by rw [task?_id found, found]
    exact .still evolves.runtimeState fun id _ here =>
      .replace tasks known rfl here fun open_ => open_
  | resume taskId expectedVersion =>
    obtain ⟨_, run, _⟩ := responding_ok.mp h
    exact (TaskMemory.resume_switch run).1
  | archive taskId =>
    obtain ⟨_, run, _⟩ := responding_ok.mp h
    exact TaskMemory.archive_switch run
  | deleteTask taskId =>
    obtain ⟨_, run, _⟩ := responding_ok.mp h
    exact TaskMemory.deleteTask_switch run
  | append taskId role content source =>
    obtain ⟨_, run, _⟩ := responding_ok.mp h
    have evolves : Evolves Write.Unswitching db db' :=
      TaskMemory.keeps_append clk (fun _ => trivial) (fun _ _ _ => trivial) _ _ _ _ _ _ _ run
    refine .still evolves.runtimeState fun id _ here => here.additive ?_
    exact TaskMemory.keeps_append _ (fun _ => trivial) (fun _ _ _ => trivial) _ _ _ _ _ _ _ run
  | setFact taskId key value evidenceId retracted =>
    obtain ⟨_, run, _⟩ := responding_ok.mp h
    have evolves : Evolves Write.Unswitching db db' :=
      TaskMemory.keeps_setFact clk (fun _ => trivial) (fun _ _ _ => trivial) _ _ _ _ _ _ _ _ run
    refine .still evolves.runtimeState fun id _ here => here.additive ?_
    exact TaskMemory.keeps_setFact _ (fun _ => trivial) (fun _ _ _ => trivial) _ _ _ _ _ _ _ _ run

/-! ## Runs -/

/-- The call sets or clears the active task: `Begin` creates a turn, `resume` succeeds, or
    `delete_task` deletes the active task. -/
def Call.switches (host : Host) (call : Call) (db : Db) : Bool :=
  match ((callStep call).exec host db).1, call.2 with
  | .ok out, .inl op => op.switches out
  | .ok _, .inr op => op.switches db
  | .error _, _ => false

/-- One call of either writer. -/
theorem Call.switch (host : Host) (call : Call) (db : Db) :
    Switch db ((callStep call).next host db) (call.switches host db) := by
  unfold Call.switches Step.next
  cases run : (callStep call).exec host db with
  | mk result db' =>
    cases result with
    | error e =>
      rw [atomic_error run]
      exact .still rfl fun _ _ here => here
    | ok out =>
      obtain ⟨clk, op | op⟩ := call
      · exact Op.switch (atomic_ok.mp run)
      · exact MemoryOp.switch (atomic_ok.mp run)

/-- How often the calls of a sequence set or clear the active task. -/
def switchCount (host : Host) : Db → List Call → Nat
  | _, [] => 0
  | db, call :: rest =>
      (call.switches host db).toNat + switchCount host ((callStep call).next host db) rest

theorem run_activeOpen {host : Host} : ∀ (calls : List Call) {db : Db}, db.ActiveOpen →
    (runCalls host db calls).ActiveOpen
  | [], _, h => h
  | call :: rest, db, h => run_activeOpen rest ((call.switch host db).activeOpen h)

theorem run_version (host : Host) : ∀ (calls : List Call) (db : Db),
    (runCalls host db calls).runtimeState.version =
      db.runtimeState.version + switchCount host db calls
  | [], db => by
      show db.runtimeState.version = db.runtimeState.version + ((0 : Nat) : Int)
      omega
  | call :: rest, db => by
      have later := run_version host rest ((callStep call).next host db)
      have now := (call.switch host db).version
      show (runCalls host ((callStep call).next host db) rest).runtimeState.version = _
      rw [later, now, switchCount]
      cases call.switches host db <;> simp [add_assoc]

/-- **The active task is always open.** After any calls of the two writers the active task, if there
    is one, is a task that is there and open; the version counts the calls that set or cleared it
    from any store on; and a `resume` under a version that was read goes through only if no such
    call came in between. -/
theorem active_task_open (host : Host) (before after : List Call) :
    (runCalls host .empty before).ActiveOpen ∧
    (runCalls host (runCalls host .empty before) after).runtimeState.version =
      (runCalls host .empty before).runtimeState.version +
        switchCount host (runCalls host .empty before) after ∧
    ∀ clk taskId out db', TaskMemory.resume clk taskId
        (some (runCalls host .empty before).runtimeState.version)
        (runCalls host (runCalls host .empty before) after) = .ok (out, db') →
      switchCount host (runCalls host .empty before) after = 0 := by
  have start : Db.empty.ActiveOpen := by
    intro id active
    cases active
  have version := run_version host after (runCalls host .empty before)
  refine ⟨run_activeOpen before start, version, fun clk taskId out db' resumed => ?_⟩
  have current := (TaskMemory.resume_switch resumed).2
  have same : (runCalls host .empty before).runtimeState.version =
      (runCalls host (runCalls host .empty before) after).runtimeState.version := by
    simpa using current
  rw [version] at same
  omega

end Cmpath
