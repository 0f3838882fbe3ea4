import Cmpath.Journal.Lineage
import Cmpath.Journal.Revision
import Cmpath.Lib.Versions

/-!
# One sequence of fact revisions

Both writers give a fact the revision after the greatest its task and key have, so the rows of a
stored key are 1, …, n whoever wrote them (`FactStep`). The key they store is not the same: the
engine stores the text it was given, `set_fact` stores it stripped, and both readers look the text up
as it is.
-/

namespace Cmpath
open Lib Lib.Txn

/-- The task and the key of a row. -/
def FactRow.place (f : FactRow) : Int × Text := (f.taskId, f.key)

/-- The revisions a place has, oldest first. -/
abbrev Db.revisions (db : Db) (place : Int × Text) : List Int :=
  Versions.of FactRow.place FactRow.revision db.facts place

/-- The row cites a message of its own task. -/
def Db.Backed (db : Db) (f : FactRow) : Prop :=
  ∃ m, db.message? f.evidenceId = some m ∧ m.taskId = f.taskId

theorem factRevision_eq (db : Db) (taskId : Int) (key : Text) :
    db.factRevision taskId key =
      Versions.latest FactRow.place FactRow.revision db.facts (taskId, key) := by
  rfl

/-- The two writers of facts. -/
inductive FactWriter where
  | engine
  | memory
  deriving DecidableEq

/-- A fact that was recorded: by whom, and the task and the key text that were given. -/
structure GivenFact where
  writer : FactWriter
  taskId : Int
  key : Text
  deriving DecidableEq

/-- What the caller named. -/
def GivenFact.named (g : GivenFact) : Int × Text := (g.taskId, g.key)

/-- Where the row is: `set_fact` strips the key (`memory.py:396`), `setFact` does not. -/
def GivenFact.stored (g : GivenFact) : Int × Text :=
  match g.writer with
  | .engine => (g.taskId, g.key)
  | .memory => (g.taskId, g.key.strip)

/-- The facts an engine call recorded, when it answers so. -/
def Op.gives : Op → Response → List GivenFact
  | .setFact taskId f, _ => [⟨.engine, taskId, f.key⟩]
  | .commit _ _ reply, .turn t =>
      if t.replayed then [] else reply.facts.map fun f => ⟨.engine, t.taskId, f.key⟩
  | _, _ => []

/-- The facts a call of `TaskMemory` records. -/
def MemoryOp.gives : MemoryOp → List GivenFact
  | .setFact taskId key _ _ _ => [⟨.memory, taskId, key⟩]
  | _ => []

/-! ## What a call does to the facts -/

/-- Facts are recorded at these places, with sources of their tasks; no message goes and no task
    with a known identifier comes. -/
structure FactStep (places : List (Int × Text)) (a b : Db) : Prop where
  recorded : Versions.Recorded FactRow.place FactRow.revision a.facts places b.facts
  sourced : ∀ f ∈ b.facts, f ∈ a.facts ∨ b.Backed f
  messages : a.messages <+: b.messages
  tasks : ∀ id ≤ a.sequence.tasks, (b.task? id).isSome → (a.task? id).isSome
  sequence : a.sequence.tasks ≤ b.sequence.tasks

theorem message?_mono {a b : Db} (h : a.messages <+: b.messages) {id : Int} {m : MessageRow}
    (found : a.message? id = some m) : b.message? id = some m := by
  obtain ⟨more, all⟩ := h
  unfold Db.message? at found ⊢
  rw [← all, List.find?_append, found]
  rfl

theorem Db.Backed.mono {a b : Db} {f : FactRow} (h : a.Backed f)
    (messages : a.messages <+: b.messages) : b.Backed f := by
  obtain ⟨m, found, own⟩ := h
  exact ⟨m, message?_mono messages found, own⟩

namespace FactStep

variable {a b c : Db} {places more : List (Int × Text)}

theorem refl (db : Db) : FactStep [] db db :=
  ⟨.done _, fun _ => .inl, List.prefix_refl _, fun _ _ => id, le_refl _⟩

theorem trans (first : FactStep places a b) (second : FactStep more b c) :
    FactStep (places ++ more) a c := by
  refine ⟨first.recorded.trans second.recorded, fun f member => ?_,
    first.messages.trans second.messages, fun id known here => ?_,
    le_trans first.sequence second.sequence⟩
  · rcases second.sourced f member with member | sourced
    · exact (first.sourced f member).imp_right fun h => h.mono second.messages
    · exact .inr sourced
  · exact first.tasks id known (second.tasks id (le_trans known first.sequence) here)

/-- Only the tables count. -/
theorem congr {b' : Db} (h : FactStep places a b) (same : b'.toTables = b.toTables) :
    FactStep places a b' := by
  have facts : b'.facts = b.facts := congrArg Tables.facts same
  have messages : b'.messages = b.messages := congrArg Tables.messages same
  have tasks : b'.tasks = b.tasks := congrArg Tables.tasks same
  have sequence : b'.sequence = b.sequence := congrArg Tables.sequence same
  refine ⟨?_, ?_, ?_, ?_, ?_⟩
  · rw [facts]
    exact h.recorded
  · intro f member
    rw [facts] at member
    unfold Db.Backed Db.message?
    rw [messages]
    exact h.sourced f member
  · rw [messages]
    exact h.messages
  · unfold Db.task?
    rw [tasks]
    exact h.tasks
  · rw [sequence]
    exact h.sequence

theorem same (tables : b.toTables = a.toTables) : FactStep [] a b := (refl a).congr tables

theorem write {w : Write} {db : Db} (kind : w.Sparing) (legal : w.Legal db) :
    FactStep [] db (w.apply db) := by
  cases w with
  | insertTask new =>
    have next : new.id = db.sequence.tasks + 1 := legal
    refine ⟨.done _, fun _ => .inl, List.prefix_refl _, fun id known here => ?_, ?_⟩
    · have here : (List.find? (·.id == id) (db.tasks ++ [new])).isSome := here
      have other : (new.id == id) = false := by
        rw [beq_eq_false_iff_ne]
        omega
      rw [List.find?_append, List.find?_cons, other] at here
      rwa [List.find?_nil, Option.or_none] at here
    · show db.sequence.tasks ≤ new.id
      omega
  | replaceTask old new =>
    refine ⟨.done _, fun _ => .inl, List.prefix_refl _, fun id _ here => ?_, le_refl _⟩
    have here : (List.find? (·.id == id) (Table.replace (·.id == old.id) new db.tasks)).isSome := here
    by_cases same : id = old.id
    · subst same
      rw [legal.1]
      rfl
    · rw [Table.find?_replace_ne legal.2 same] at here
      exact here
  | insertMessage new =>
    exact ⟨.done _, fun _ => .inl, List.prefix_append _ _, fun _ _ => id, le_refl _⟩
  | insertFact | replaceFact | deleteFacts | replaceMessage | deleteMessages | deleteTasks =>
    exact kind.elim
  | deleteDependencies p =>
    have plain : FactStep [] db { db with dependencies := Table.delete p db.dependencies } :=
      ⟨.done _, fun _ => .inl, List.prefix_refl _, fun _ _ => id, le_refl _⟩
    exact plain.congr (Write.touchAll_tables _ _).1
  | deleteAliases p =>
    have plain : FactStep [] db { db with aliases := Table.delete p db.aliases } :=
      ⟨.done _, fun _ => .inl, List.prefix_refl _, fun _ _ => id, le_refl _⟩
    exact plain.congr (Write.touchAll_tables _ _).1
  | _ => exact ⟨.done _, fun _ => .inl, List.prefix_refl _, fun _ _ => id, le_refl _⟩

theorem of_sparing (h : Evolves Write.Sparing a b) : FactStep [] a b :=
  h.rel (R := FactStep []) refl (fun _ _ _ => trans) fun _ _ kind legal => write kind legal

/-- A row with the next revision of its place and a source of its task. -/
theorem insertFact {db : Db} {new : FactRow}
    (next : new.revision = db.factRevision new.taskId new.key + 1) (backed : db.Backed new) :
    FactStep [new.place] db (db.insertFact new) := by
  rw [factRevision_eq] at next
  refine ⟨.single new next, fun f member => ?_, List.prefix_refl _, fun _ _ => id, le_refl _⟩
  rcases List.mem_append.mp member with old | last
  · exact .inl old
  · rw [List.mem_singleton.mp last]
    exact .inr backed

end FactStep

/-! ## The engine -/

section Engine

variable {host : Host} {clk : Clock} {db db' : Db}

theorem setFact_step {now : Stamp} {taskId : Int} {f : FactUpdate} {u : Unit}
    (h : setFact now taskId f db = .ok (u, db')) : FactStep [(taskId, f.key)] db db' := by
  simp only [setFact, bind_ok, ensure_ok, require_ok] at h
  obtain ⟨_, _, ⟨_, rfl⟩, _, start, ⟨source, rfl⟩, inserted⟩ := h
  obtain ⟨m, found, own⟩ := (Option.any_eq_true _ _).mp source
  rw [(insertFact_ok inserted).2]
  exact @FactStep.insertFact start ⟨_, taskId, f.key, _, _, f.evidenceId, _, _⟩ rfl
    ⟨m, found, by simpa using own⟩

theorem setFacts_step {taskId : Int} : ∀ {n : Nat} {facts : List FactUpdate} {db db' : Db} {u : Unit},
    setFacts clk taskId n facts db = .ok (u, db') →
      FactStep (facts.map fun f => (taskId, f.key)) db db'
  | _, [], db, db', u, h => by
      rw [(pure_ok.mp h).2]
      exact .refl db
  | n, f :: rest, db, db', u, h => by
      simp only [setFacts, bind_ok] at h
      obtain ⟨_, mid, first, later⟩ := h
      exact (setFact_step first).trans (setFacts_step later)

theorem commitWrites_step {id : Text} {generation : Int} {reply : Reply} {k : Task}
    (h : commitWrites clk id generation reply db = .ok (k, db')) :
    FactStep (reply.facts.map fun f => (k.id, f.key)) db db' := by
  simp only [commitWrites, bind_ok, read_ok, pure_ok] at h
  obtain ⟨⟨t, k'⟩, start, ⟨_, rfl⟩, ev, mid, appended, _, facts, factual, _, published, update, _,
    _, edges, rfl, rfl⟩ := h
  dsimp only at factual update appended
  have first : FactStep [] start mid :=
    .of_sparing (keeps_append (fun _ => trivial) _ _ _ _ _ appended)
  have second := setFacts_step factual
  have third : FactStep [] facts published := by
    refine .of_sparing ?_
    have keep : ∀ r : TaskRow,
        (r.withSnapshot (encode (object (reply.snapshot.getD k.snapshot)))).id = r.id := fun _ => rfl
    exact keeps_updateTask (fun _ _ _ => trivial) _ keep _ _ _ update
  obtain ⟨rows, _, rfl⟩ := recordProvenance_ok edges
  have all := (first.trans second).trans third
  rw [List.nil_append, List.append_nil] at all
  exact all.congr rfl

theorem recordCommit_step {id : Text} {reply : Reply} {k : Task} {out : Turn}
    (h : recordCommit host clk id reply k db = .ok (out, db')) :
    FactStep [] db db' ∧ ∃ t, db.turn? id = some t ∧ out.taskId = t.taskId ∧ out.replayed = false := by
  obtain ⟨_, _, _, t, live, after⟩ := recordCommit_ok h
  simp only [recordCommit, updateTurn, bind_ok, read_ok, modify_ok] at h
  obtain ⟨_, _, rfl, _, _, event, found, rfl⟩ := h
  refine ⟨?_, t, live, ?_⟩
  · rw [insertEvent_ok event]
    exact (FactStep.write (w := .event .harnessCommit k.id (clk.now 2)) trivial trivial).congr rfl
  · obtain ⟨u, here, same⟩ := turn_ok.mp found
    rw [after] at here
    cases here
    rw [same]
    exact ⟨rfl, rfl⟩

/-- A commit records the facts of its reply. -/
theorem commitPending_step {id : Text} {generation : Int} {reply : Reply} {out : Turn}
    (h : commitPending host clk id generation reply db = .ok (out, db')) :
    FactStep (reply.facts.map fun f => (out.taskId, f.key)) db db' ∧ out.replayed = false := by
  obtain ⟨k, mid, writes, record⟩ := commitPending_ok_iff.mp h
  obtain ⟨t, row, checks, live, _, turns, _⟩ := commitWrites_ok writes
  obtain ⟨_, _, _, _, ⟨_, _, _, own⟩, _⟩ := commitChecks_ok checks
  obtain ⟨last, u, found, task, fresh⟩ := recordCommit_step record
  have same : mid.turn? id = some t := by
    unfold Db.turn?
    rw [turns]
    exact live
  rw [same] at found
  cases found
  have first := commitWrites_step writes
  rw [own, ← task] at first
  exact ⟨by simpa using first.trans last, fresh⟩

/-- Committing again records nothing. -/
theorem commit_step {id : Text} {generation : Int} {reply : Reply} {out : Turn}
    (h : commit host clk id generation reply db = .ok (out, db')) :
    FactStep (if out.replayed then [] else reply.facts.map fun f => (out.taskId, f.key)) db db' := by
  unfold commit at h
  split at h
  · simp [problem] at h
  · split at h
    · simp at h
    · split at h
      · split at h
        · simp [problem] at h
        · split at h
          · simp [problem] at h
          · cases h
            exact .refl db
      · obtain ⟨step, fresh⟩ := commitPending_step h
        rw [fresh]
        exact step

theorem Op.factStep {op : Op} {out : Response} (h : op.run host clk db = .ok (out, db')) :
    FactStep ((op.gives out).map GivenFact.stored) db db' := by
  cases op with
  | createTask input =>
    obtain ⟨_, run, rfl⟩ := responding_ok.mp h
    exact .of_sparing ((createTask_founds _ _ _ _ _ _ run).mono fun _ => Write.Founding.sparing)
  | appendBatch inputs =>
    obtain ⟨_, run, rfl⟩ := responding_ok.mp h
    exact .of_sparing (keeps_appendBatch (fun _ => trivial) _ _ _ _ _ run)
  | setFact taskId f =>
    obtain ⟨_, run, rfl⟩ := responding_ok.mp h
    exact setFact_step run
  | begin r custom =>
    obtain ⟨_, run, rfl⟩ := responding_ok.mp h
    obtain ⟨_, _, _, ⟨_, _, _, _, _, rfl⟩ | ⟨row, payload, basis, begun, _⟩⟩ := begin_ok run
    · exact .refl _
    · have opened : FactStep [] db (db.opened clk _ row) := .of_sparing
        (opened_evolves (fun _ _ => trivial) (fun _ => trivial) (fun _ => trivial)
          (fun _ _ _ => trivial) begun.task)
      refine opened.congr ?_
      rw [begun.after]
  | commit id generation reply =>
    obtain ⟨t, run, rfl⟩ := responding_ok.mp h
    have step := commit_step run
    show FactStep (List.map _ (if t.replayed then [] else _)) db db'
    split
    · rename_i again
      rwa [if_pos again] at step
    · rename_i new
      rw [if_neg new] at step
      rwa [List.map_map]
  | finishTool id generation callId result tokens =>
    obtain ⟨_, run, rfl⟩ := responding_ok.mp h
    obtain ⟨t, call, _, _, _, _, ⟨_, rfl⟩ | ⟨_, finished⟩⟩ := finishTool_ok run
    · exact .refl _
    · obtain ⟨_, _, _, _, _, _, _, _, rfl⟩ := finished.taskEpoch
      have put : FactStep [] db
          (db.insertMessage (resultMessage db clk t.taskId call (encode result.canon))) :=
        .write (w := .insertMessage (resultMessage db clk t.taskId call (encode result.canon)))
          trivial ⟨rfl, finished.task⟩
      exact put.congr rfl
  | applyRetention cutoff planHash =>
    obtain ⟨_, run, rfl⟩ := responding_ok.mp h
    obtain ⟨before, _, _, _, rfl⟩ := applyRetention_ok run
    exact FactStep.same (retireAll_tables _ _ db).1
  | recover id generation =>
    obtain ⟨_, run, rfl⟩ := responding_ok.mp h
    obtain ⟨_, _, _, _, _, _, _, rfl⟩ := recover_ok run
    exact FactStep.same rfl
  | abort id generation =>
    obtain ⟨_, run, rfl⟩ := responding_ok.mp h
    obtain ⟨_, _, _, _, rfl⟩ := abort_ok run
    exact FactStep.same rfl
  | actionEligible id generation callId ttlMs =>
    obtain ⟨_, run, rfl⟩ := responding_ok.mp h
    obtain ⟨_, _, _, _, _, _, _, _, _, _, _, _, _, _, _, rfl⟩ := actionEligible_ok run
    exact FactStep.same rfl
  | startTool id generation callId name args =>
    obtain ⟨_, run, rfl⟩ := responding_ok.mp h
    obtain ⟨_, _, _, _, _, _, ⟨_, _, _, _, rfl⟩ | ⟨_, _, _, _, rfl⟩⟩ := startTool_ok run
    · exact .refl _
    · exact FactStep.same rfl
  | recordModelRequest id generation callId payload units counting =>
    obtain ⟨_, run, rfl⟩ := responding_ok.mp h
    obtain ⟨_, _, _, _, _, _, _, _, ⟨_, _, rfl⟩ | ⟨_, _, rfl⟩⟩ := recordModelRequest_ok run
    · exact .refl _
    · exact FactStep.same rfl
  | recordModelResponse id generation callId response =>
    obtain ⟨_, run, rfl⟩ := responding_ok.mp h
    obtain ⟨_, _, _, _, _, _, _, ⟨_, _, rfl⟩ | ⟨_, rfl⟩⟩ := recordModelResponse_ok run
    · exact .refl _
    · exact FactStep.same rfl
  | retentionPlan | task | turn | tools | modelCalls | search | preview =>
    obtain ⟨_, run, rfl⟩ := responding_ok.mp h
    rw [(read_ok.mp run).2]
    exact .refl db

end Engine

/-! ## TaskMemory -/

namespace TaskMemory

variable {host : Host} {clk : Clock} {db db' : Db}

/-- `set_fact` records under the stripped key. -/
theorem setFact_step {taskId : Int} {key : Text} {value : Json} {evidenceId : Int}
    {retracted : Bool} {u : Unit}
    (h : setFact clk taskId key value evidenceId retracted db = .ok (u, db')) :
    FactStep [(taskId, key.strip)] db db' := by
  simp only [setFact, positive, bindable, bindableJson, event, bind_ok, ensure_ok, require_ok] at h
  obtain ⟨_, _, ⟨_, rfl⟩, row, _, task, _, _, ⟨_, rfl⟩, _, _, ⟨_, rfl⟩, _, _, ⟨source, rfl⟩, _, _,
    ⟨_, rfl⟩, _, start, ⟨_, rfl⟩, _, mid, inserted, logged⟩ := h
  obtain ⟨_, rfl⟩ := taskRow_ok task
  obtain ⟨m, found, own⟩ := (Option.any_eq_true _ _).mp source
  have first : FactStep [(taskId, key.strip)] start mid := by
    rw [(insertFact_ok inserted).2]
    exact @FactStep.insertFact start ⟨_, taskId, key.strip, _, _, evidenceId, _, _⟩ rfl
      ⟨m, found, by simpa using own⟩
  rw [insertEvent_ok logged]
  exact first.trans (FactStep.write (w := .event .fact taskId (clk.now 1)) trivial trivial)

end TaskMemory

/-- A task is deleted with its facts and its messages. -/
structure TaskGone (taskId : Int) (a b : Db) : Prop where
  facts : b.facts = Table.delete (·.taskId == taskId) a.facts
  messages : b.messages = Table.delete (·.taskId == taskId) a.messages
  tasks : b.tasks = Table.delete (·.id == taskId) a.tasks
  sequence : b.sequence.tasks = a.sequence.tasks

section Gone

variable {clk : Clock} {db db' : Db} {taskId : Int}

theorem deleteMessages_rows {p : MessageRow → Bool} {u : Unit}
    (h : deleteMessages p db = .ok (u, db')) :
    db'.facts = Table.delete (fun f => (db.messages.filter p).any (·.id == f.evidenceId)) db.facts ∧
      db'.messages = Table.delete p db.messages ∧ db'.sequence = db.sequence := by
  simp only [deleteMessages, requireUncited, bind_ok, require_ok, modify_ok] at h
  obtain ⟨_, _, ⟨_, rfl⟩, _, _, rfl, rfl⟩ := h
  simp [Db.deleteMessages, Db.deleteFacts]

/-- A fact that cites a message of a task is a fact of that task, so the cascade takes no other. -/
theorem deleteTask_gone {u : Unit} (keys : db.MessageKeys) (backed : ∀ f ∈ db.facts, db.Backed f)
    (h : deleteTask taskId db = .ok (u, db')) : TaskGone taskId db db' := by
  have tasks := (deleteTask_ok h).2
  simp only [deleteTask, bind_ok, require_ok, modify_ok] at h
  obtain ⟨_, a, ⟨_, rfl⟩, _, b, rfl, _, c, rfl, _, d, rfl, _, e, messages, _, f, rfl, rfl⟩ := h
  obtain ⟨facts, rows, sequence⟩ := deleteMessages_rows messages
  simp only [Db.deleteFacts, Db.deleteAliases, Db.deleteDependencies, Write.touchAll_facts,
    Write.touchAll_messages, Write.touchAll_sequence] at facts rows sequence
  have kept : e.facts = Table.delete (·.taskId == taskId) a.facts := by
    rw [facts]
    refine List.filter_eq_self.mpr fun f member => ?_
    obtain ⟨there, other⟩ := Table.mem_delete.mp member
    obtain ⟨m, found, own⟩ := backed f there
    rw [Bool.not_eq_true', List.any_eq_false]
    intro m' cited same
    obtain ⟨listed, task⟩ := List.mem_filter.mp cited
    have key : m'.id = m.id := by
      rw [beq_iff_eq.mp same, message?_id found]
    have equal := keys.keyed.eq_of_mem listed (List.mem_of_find?_eq_some found) key
    rw [equal, own, other] at task
    cases task
  refine ⟨?_, ?_, tasks, ?_⟩
  · split <;> simp [Db.deleteTasks, kept]
  · split <;> simp [Db.deleteTasks, rows]
  · split <;> simp [Db.deleteTasks, sequence]

theorem TaskMemory.deleteTask_gone {u : Unit} (keys : db.MessageKeys)
    (backed : ∀ f ∈ db.facts, db.Backed f) (h : deleteTask clk taskId db = .ok (u, db')) :
    TaskGone taskId db db' := by
  simp only [deleteTask, bind_ok, require_ok, read_ok, Except.ok.injEq] at h
  obtain ⟨row, _, read, _, start, ⟨_, rfl⟩, active, _, ⟨rfl, rfl⟩, run⟩ := h
  obtain ⟨_, rfl⟩ := taskRow_ok read
  split at run
  · simp only [bind_ok] at run
    obtain ⟨_, mid, state, _, _, deleted, logged⟩ := run
    have keys' : mid.MessageKeys := by
      rw [setActiveTask_ok state]
      exact ⟨keys.keyed, keys.given⟩
    have backed' : ∀ f ∈ mid.facts, mid.Backed f := by
      rw [setActiveTask_ok state]
      exact backed
    have gone := Cmpath.deleteTask_gone keys' backed' deleted
    rw [setActiveTask_ok state] at gone
    unfold event at logged
    rw [insertEvent_ok logged]
    exact ⟨gone.facts, gone.messages, gone.tasks, gone.sequence⟩
  · simp only [bind_ok] at run
    obtain ⟨_, _, deleted, logged⟩ := run
    have gone := Cmpath.deleteTask_gone keys backed deleted
    unfold event at logged
    rw [insertEvent_ok logged]
    exact ⟨gone.facts, gone.messages, gone.tasks, gone.sequence⟩

end Gone

/-- A call of `TaskMemory` records facts, or deletes a task. -/
theorem MemoryOp.factStep {host : Host} {clk : Clock} {op : MemoryOp} {db db' : Db} {out : Response}
    (keys : db.MessageKeys) (backed : ∀ f ∈ db.facts, db.Backed f)
    (h : op.run host clk db = .ok (out, db')) :
    FactStep (op.gives.map GivenFact.stored) db db' ∨ op.gives = [] ∧ ∃ taskId, TaskGone taskId db db' := by
  cases op with
  | createTask title parents aliases snapshot =>
    obtain ⟨_, run, _⟩ := responding_ok.mp h
    exact .inl (.of_sparing ((TaskMemory.createTask_founds _ _ _ _ _ _ _ _ _ run).mono
      fun _ => Write.Founding.sparing))
  | setSnapshot taskId snapshot expectedRevision =>
    obtain ⟨_, run, _⟩ := responding_ok.mp h
    exact .inl (.of_sparing (TaskMemory.keeps_setSnapshot _ (fun _ _ _ => trivial)
      (fun _ _ _ => trivial) _ _ _ _ _ _ run))
  | resume taskId expectedVersion =>
    obtain ⟨_, run, _⟩ := responding_ok.mp h
    exact .inl (.of_sparing (TaskMemory.keeps_resume _ (fun _ _ _ => trivial)
      (fun _ _ _ => trivial) (fun _ => trivial) _ _ _ _ _ run))
  | archive taskId =>
    obtain ⟨_, run, _⟩ := responding_ok.mp h
    exact .inl (.of_sparing (TaskMemory.keeps_archive _ (fun _ _ _ => trivial)
      (fun _ _ _ => trivial) _ _ _ _ run))
  | deleteTask taskId =>
    obtain ⟨_, run, _⟩ := responding_ok.mp h
    exact .inr ⟨rfl, taskId, TaskMemory.deleteTask_gone keys backed run⟩
  | append taskId role content source =>
    obtain ⟨_, run, _⟩ := responding_ok.mp h
    exact .inl (.of_sparing (TaskMemory.keeps_append _ (fun _ => trivial) (fun _ _ _ => trivial)
      _ _ _ _ _ _ _ run))
  | setFact taskId key value evidenceId retracted =>
    obtain ⟨_, run, _⟩ := responding_ok.mp h
    exact .inl (TaskMemory.setFact_step run)

/-! ## What holds of every run -/

/-- Facts were stored at these places, in this order. -/
structure Sequenced (stored : List (Int × Text)) (db : Db) : Prop where
  numbered : ∀ taskId key, (db.task? taskId).isSome →
    db.revisions (taskId, key) = upTo (stored.count (taskId, key))
  backed : ∀ f ∈ db.facts, db.Backed f
  known : ∀ place ∈ stored, place.1 ≤ db.sequence.tasks

namespace Sequenced

variable {a b : Db} {stored places : List (Int × Text)}

theorem empty : Sequenced [] .empty :=
  ⟨fun _ _ here => absurd here Bool.false_ne_true, fun _ member => absurd member List.not_mem_nil,
    fun _ member => absurd member List.not_mem_nil⟩

/-- The task of a fact was given its identifier. -/
theorem fact_known (backed : ∀ f ∈ a.facts, a.Backed f) (owned : a.Owned) {f : FactRow}
    (member : f ∈ a.facts) : f.taskId ≤ a.sequence.tasks := by
  obtain ⟨m, found, own⟩ := backed f member
  rw [← own]
  exact owned m (List.mem_of_find?_eq_some found)

theorem step (h : Sequenced stored a) (owned : a.Owned) (owned' : b.Owned)
    (s : FactStep places a b) : Sequenced (stored ++ places) b := by
  have backed : ∀ f ∈ b.facts, b.Backed f := by
    intro f member
    rcases s.sourced f member with old | new
    · exact (h.backed f old).mono s.messages
    · exact new
  refine ⟨fun taskId key here => ?_, backed, fun place member => ?_⟩
  · have before : a.revisions (taskId, key) = upTo (stored.count (taskId, key)) := by
      by_cases known : taskId ≤ a.sequence.tasks
      · exact h.numbered taskId key (s.tasks taskId known here)
      · -- a new task: no fact is stored under its identifier yet
        have none_ : ∀ f ∈ a.facts, f.place ≠ (taskId, key) := by
          intro f member same
          have task : f.taskId = taskId := congrArg Prod.fst same
          exact known (task ▸ fact_known h.backed owned member)
        have fresh : stored.count (taskId, key) = 0 :=
          List.count_eq_zero.mpr fun member => known (h.known _ member)
        rw [fresh]
        exact Versions.of_eq_nil none_
    rw [List.count_append]
    exact s.recorded.versions before
  · rcases List.mem_append.mp member with old | new
    · exact le_trans (h.known place old) s.sequence
    · obtain ⟨f, row, rfl⟩ := s.recorded.mem new
      exact fact_known backed owned' row

theorem gone {taskId : Int} (h : Sequenced stored a) (keys : a.MessageKeys)
    (s : TaskGone taskId a b) : Sequenced stored b := by
  refine ⟨fun other key here => ?_, fun f member => ?_, fun place member => ?_⟩
  · obtain ⟨row, found⟩ := Option.isSome_iff_exists.mp here
    have listed := List.mem_of_find?_eq_some found
    rw [s.tasks] at listed
    obtain ⟨there, apart⟩ := Table.mem_delete.mp listed
    have id := task?_id found
    have ne : other ≠ taskId := by
      rw [← id]
      simpa using apart
    have before : (a.task? other).isSome :=
      List.find?_isSome.mpr ⟨row, there, by simpa using id⟩
    rw [← h.numbered other key before, Db.revisions, s.facts]
    refine Versions.of_delete fun f _ hit same => ne ?_
    have task : f.taskId = other := congrArg Prod.fst same
    rw [← task]
    exact beq_iff_eq.mp hit
  · rw [s.facts] at member
    obtain ⟨there, other⟩ := Table.mem_delete.mp member
    obtain ⟨m, found, own⟩ := h.backed f there
    refine ⟨m, ?_, own⟩
    unfold Db.message?
    rw [s.messages, Table.find?_delete]
    · exact found
    · intro r listed same
      have key : r.id = m.id := by rw [beq_iff_eq.mp same, message?_id found]
      rw [keys.keyed.eq_of_mem listed (List.mem_of_find?_eq_some found) key, own]
      exact other
  · rw [s.sequence]
    exact h.known place member

end Sequenced

/-- The facts a call recorded. -/
def Call.gives (host : Host) (call : Call) (db : Db) : List GivenFact :=
  match ((callStep call).exec host db).1, call.2 with
  | .ok out, .inl op => op.gives out
  | .ok _, .inr op => op.gives
  | .error _, _ => []

/-- The facts a sequence of calls recorded, in commit order. -/
def givenFacts (host : Host) : Db → List Call → List GivenFact
  | _, [] => []
  | db, call :: rest =>
      Call.gives host call db ++ givenFacts host ((callStep call).next host db) rest

theorem Reachable.next {host : Host} {db : Db} (h : Reachable host db) (step : Step) :
    Reachable host (step.next host db) := by
  obtain ⟨steps, rfl⟩ := h
  exact ⟨steps ++ [step], by rw [runSteps_append]; rfl⟩

/-- One call of either writer. -/
theorem Sequenced.call {host : Host} {db : Db} {stored : List (Int × Text)}
    (h : Sequenced stored db) (reached : Reachable host db) (call : Call) :
    Sequenced (stored ++ (Call.gives host call db).map GivenFact.stored)
      ((callStep call).next host db) := by
  have owned := reached.owned
  have keys := reached.messageKeys
  have owned' := (reached.next (callStep call)).owned
  unfold Call.gives
  unfold Step.next at owned' ⊢
  cases run : (callStep call).exec host db with
  | mk result db' =>
    rw [run] at owned'
    cases result with
    | error e =>
      have same : db' = db := atomic_error run
      subst same
      simpa using h
    | ok out =>
      obtain ⟨clk, op | op⟩ := call
      · exact h.step owned owned' (Op.factStep (atomic_ok.mp run))
      · rcases MemoryOp.factStep keys h.backed (atomic_ok.mp run) with step | ⟨none_, _, gone⟩
        · exact h.step owned owned' step
        · show Sequenced (stored ++ List.map _ op.gives) db'
          rw [none_, List.map_nil, List.append_nil]
          exact h.gone keys gone

theorem Sequenced.run {host : Host} : ∀ (calls : List Call) {db : Db} {stored : List (Int × Text)},
    Sequenced stored db → Reachable host db →
      Sequenced (stored ++ (givenFacts host db calls).map GivenFact.stored) (runCalls host db calls)
  | [], _, stored, h, _ => by
      rw [givenFacts, List.map_nil, List.append_nil]
      exact h
  | call :: rest, db, stored, h, reached => by
      have later := Sequenced.run rest (h.call reached call) (reached.next _)
      rw [List.append_assoc, ← List.map_append] at later
      exact later

/-! ## What the two readers return -/

/-- The last row of a place. -/
def Db.lastFact (db : Db) (place : Int × Text) : Option FactRow :=
  (db.facts.filter fun f => f.place == place).getLast?

/-- A row as the engine packs it, cited to its own task. -/
def FactRow.packed (f : FactRow) : PackedFact :=
  ⟨citation f.taskId f.evidenceId, f.key, f.retracted, f.revision, f.value.canon⟩

section Readers

variable {db : Db} {taskId : Int} {key : Text} {n : Nat}

theorem lastFact_of_upTo (numbered : db.revisions (taskId, key) = upTo (n + 1)) :
    ∃ before row, (db.facts.filter fun f => f.place == (taskId, key)) = before ++ [row] ∧
      db.lastFact (taskId, key) = some row ∧ row.revision = db.factRevision taskId key ∧
      ∀ f ∈ before, f.revision < row.revision := by
  obtain ⟨before, row, rows, top, older⟩ := Versions.last_of_upTo numbered
  refine ⟨before, row, rows, ?_, by rw [factRevision_eq]; exact top, older⟩
  rw [Db.lastFact, rows, List.getLast?_concat]

theorem no_rows (numbered : db.revisions (taskId, key) = upTo 0) :
    (db.facts.filter fun f => f.place == (taskId, key)) = [] :=
  List.map_eq_nil_iff.mp numbered

/-- `fact` reads the last row of a numbered place. -/
theorem currentRow_last (numbered : db.revisions (taskId, key) = upTo n) :
    TaskMemory.currentRow db taskId key = db.lastFact (taskId, key) := by
  have rows : (db.facts.filter fun f => f.taskId == taskId && f.key == key) =
      db.facts.filter fun f => f.place == (taskId, key) := rfl
  cases n with
  | zero =>
    have none_ := no_rows numbered
    rw [TaskMemory.currentRow, rows, Db.lastFact, none_, List.mergeSort_nil]
    rfl
  | succ n =>
    obtain ⟨before, row, split, last, _, older⟩ := lastFact_of_upTo numbered
    rw [last]
    cases found : TaskMemory.currentRow db taskId key with
    | none =>
      rw [TaskMemory.currentRow, rows, split, List.head?_eq_none_iff] at found
      have lengths := congrArg List.length found
      simp at lengths
    | some other =>
      obtain ⟨_, _, latest⟩ := TaskMemory.currentRow_ok found
      rw [TaskMemory.currentRow, rows] at found
      have member := List.mem_mergeSort.mp (List.mem_of_mem_head? found)
      have mine : ∀ f, f ∈ before ++ [row] → f ∈ db.facts ∧ f.place = (taskId, key) := by
        intro f there
        rw [← split] at there
        exact (List.mem_filter.mp there).imp_right beq_iff_eq.mp
      rw [split] at member
      have here := mine other member
      rcases List.mem_append.mp member with early | late
      · -- the last row has a greater revision than the one returned
        have there := mine row (List.mem_append_right _ (List.mem_singleton_self _))
        have same : row.place = other.place := there.2.trans here.2.symm
        have below := latest row there.1 (congrArg Prod.fst same) (congrArg Prod.snd same)
        have above := older other early
        omega
      · rw [List.mem_singleton.mp late]

/-- The engine's query has the last row of a numbered place and no other of its key. -/
theorem latestFacts_last (numbered : db.revisions (taskId, key) = upTo n) :
    ((db.latestFacts taskId).filter fun f => f.key == key) =
      (db.lastFact (taskId, key)).toList := by
  have perm : ((db.latestFacts taskId).filter fun f => f.key == key).Perm
      ((db.facts.filter fun f => f.place == (taskId, key)).filter fun f =>
        f.revision == db.factRevision taskId key) := by
    refine ((List.mergeSort_perm _ _).filter _).trans (.of_eq ?_)
    rw [List.filter_filter, List.filter_filter]
    refine List.filter_congr fun f _ => ?_
    rw [Bool.eq_iff_iff]
    simp only [FactRow.place, Bool.and_eq_true, beq_iff_eq, Prod.mk.injEq]
    constructor
    · rintro ⟨same, task, top⟩
      exact ⟨by rw [← same]; exact top, task, same⟩
    · rintro ⟨top, task, same⟩
      exact ⟨same, task, by rw [same]; exact top⟩
  cases n with
  | zero =>
    have none_ := no_rows numbered
    rw [none_] at perm
    rw [Db.lastFact, none_]
    exact List.perm_nil.mp perm
  | succ n =>
    obtain ⟨before, row, split, last, top, older⟩ := lastFact_of_upTo numbered
    have one : ((before ++ [row]).filter fun f => f.revision == db.factRevision taskId key) =
        [row] := by
      have early : before.filter (fun f => f.revision == db.factRevision taskId key) = [] := by
        refine List.filter_eq_nil_iff.mpr fun f member same => ?_
        have below := older f member
        have equal := beq_iff_eq.mp same
        omega
      rw [List.filter_append, early, List.filter_cons_of_pos (by rw [top]; exact beq_self_eq_true _)]
      rfl
    rw [split, one] at perm
    rw [last]
    exact List.perm_singleton.mp perm

/-- Facts with sources of their own task are all packed. -/
theorem factCandidates_backed {rows : List FactRow} (backed : ∀ f ∈ rows, db.Backed f) :
    ∃ out, factCandidates db rows = .ok out ∧ out.filterMap (·.2) = rows.map FactRow.packed := by
  induction rows with
  | nil => exact ⟨[], rfl, rfl⟩
  | cons f rest ih =>
    obtain ⟨later, run, packed⟩ := ih fun g member => backed g (List.mem_cons_of_mem _ member)
    obtain ⟨m, found, own⟩ := backed f List.mem_cons_self
    refine ⟨(evidence m (.int 0), some (packedFact f m)) :: later, ?_, ?_⟩
    · rw [factCandidates, found]
      exact except_bind_ok.mpr ⟨later, run, rfl⟩
    · show packedFact f m :: later.filterMap (·.2) = _
      rw [packed, List.map_cons, packedFact, own, message?_id found]
      rfl

end Readers

/-- **One sequence for one key text.** Its revisions in a task are 1, …, n in commit order, one for
    each time a writer was given the text; both readers return the last of them under that text;
    each cites a message of the task. -/
structure OneSequence (host : Host) (gives : List GivenFact) (db : Db) (taskId : Int)
    (key : Text) : Prop where
  numbered : db.revisions (taskId, key) = upTo ((gives.map GivenFact.named).count (taskId, key))
  read : key.valid = true → TaskMemory.fact host taskId key none db =
    .ok ((db.lastFact (taskId, key)).map (TaskMemory.factOf host))
  packed : ∃ out, factCandidates db (db.latestFacts taskId) = .ok out ∧
    (out.filterMap (·.2)).filter (fun f => f.key == key) =
      (db.lastFact (taskId, key)).toList.map FactRow.packed
  backed : ∀ f ∈ db.facts, f.place = (taskId, key) → db.Backed f

/-- A numbered place is one sequence for both readers. -/
theorem OneSequence.of_numbered {host : Host} {gives : List GivenFact} {db : Db} {taskId : Int}
    {key : Text} (numbers : db.Numbered) (here : (db.task? taskId).isSome)
    (backed : ∀ f ∈ db.facts, db.Backed f)
    (numbered : db.revisions (taskId, key) = upTo ((gives.map GivenFact.named).count (taskId, key))) :
    OneSequence host gives db taskId key := by
  refine ⟨numbered, fun valid => ?_, ?_, fun f member _ => backed f member⟩
  · obtain ⟨row, found⟩ := findTask_of_row numbers here
    unfold TaskMemory.fact
    refine except_bind_ok.mpr ⟨(), rfl, except_bind_ok.mpr ⟨row, found, except_bind_ok.mpr ⟨(), ?_, ?_⟩⟩⟩
    · rw [valid]
      rfl
    · rw [currentRow_last numbered]
  · have latest : ∀ f ∈ db.latestFacts taskId, db.Backed f :=
      fun f member => backed f (mem_latestFacts member).2.1
    obtain ⟨out, run, packed⟩ := factCandidates_backed latest
    refine ⟨out, run, ?_⟩
    rw [packed, List.filter_map, ← latestFacts_last numbered]
    rfl

/-- Where one text is stored stripped and another as it is, they are counted apart. -/
theorem count_stored_lt {gives : List GivenFact} {g : GivenFact} (member : g ∈ gives)
    (memory : g.writer = .memory) (rough : g.key.strip ≠ g.key) :
    (gives.map GivenFact.stored).count g.named < (gives.map GivenFact.named).count g.named := by
  have plain : ∀ x : GivenFact, x.stored = g.named → x.named = g.named := by
    intro x same
    unfold GivenFact.stored at same
    split at same
    · exact same
    · -- a stripped key is never one that strips to another
      have key : x.key.strip = g.key := congrArg Prod.snd same
      rw [← key, Text.strip_strip] at rough
      exact absurd rfl rough
  have mine : g.stored ≠ g.named := by
    unfold GivenFact.stored GivenFact.named
    rw [memory]
    exact fun same => rough (congrArg Prod.snd same)
  have below : ∀ l : List GivenFact,
      (l.map GivenFact.stored).count g.named ≤ (l.map GivenFact.named).count g.named := by
    intro l
    rw [List.count_eq_countP, List.count_eq_countP, List.countP_map, List.countP_map]
    exact List.countP_mono_left fun x _ hit => beq_iff_eq.mpr (plain x (beq_iff_eq.mp hit))
  obtain ⟨before, after, rfl⟩ := List.append_of_mem member
  have first := below before
  have second := below after
  rw [List.map_append, List.map_append, List.count_append, List.count_append, List.map_cons,
    List.map_cons, List.count_cons_self, List.count_cons_of_ne mine]
  omega

/-- **One revision sequence across both writers, exactly where keys are given stripped.** After any
    calls of the engine and of `TaskMemory`, every key text of every task there is one sequence if
    and only if no fact of such a task was given to `set_fact` with white space around its key. -/
theorem one_sequence_iff (host : Host) (calls : List Call) :
    (∀ taskId key, ((runCalls host .empty calls).task? taskId).isSome →
      OneSequence host (givenFacts host .empty calls) (runCalls host .empty calls) taskId key) ↔
    ∀ g ∈ givenFacts host .empty calls, g.writer = .memory →
      ((runCalls host .empty calls).task? g.taskId).isSome → g.key.strip = g.key := by
  have reached : Reachable host (runCalls host .empty calls) := ⟨_, rfl⟩
  have empty : Reachable host .empty := ⟨[], rfl⟩
  have run := Sequenced.run calls Sequenced.empty empty
  rw [List.nil_append] at run
  constructor
  · intro one g member memory here
    by_contra rough
    have numbered := (one g.taskId g.key here).numbered
    rw [run.numbered g.taskId g.key here] at numbered
    have fewer := count_stored_lt member memory rough
    have equal := upTo_injective numbered
    exact absurd equal (Nat.ne_of_lt fewer)
  · intro trimmed taskId key here
    refine .of_numbered reached.numbered here run.backed ?_
    rw [run.numbered taskId key here, List.count_eq_countP, List.count_eq_countP, List.countP_map, List.countP_map]
    congr 1
    refine List.countP_congr fun g member => ?_
    have same : g.taskId = taskId → g.stored = g.named := by
      rintro rfl
      unfold GivenFact.stored GivenFact.named
      cases writer : g.writer with
      | engine => rfl
      | memory => exact congrArg (Prod.mk _) (trimmed g member writer here)
    by_cases mine : g.taskId = taskId
    · rw [Function.comp_apply, Function.comp_apply, same mine]
    · have stored : g.stored.1 = g.taskId := by
        unfold GivenFact.stored
        split <;> rfl
      have apart : g.stored ≠ (taskId, key) := fun hit => mine (stored ▸ congrArg Prod.fst hit)
      have apart' : g.named ≠ (taskId, key) := fun hit => mine (congrArg Prod.fst hit)
      simp [apart, apart']

/-- One key, with a blank before it, given to both writers. -/
def blankKey : List Call :=
  plainTask ++
    [(plainClock, .inl (.appendBatch [⟨1, Text.lit "user", Text.lit "m", none⟩])),
      (plainClock, .inl (.setFact 1 { key := Text.lit " k", value := .int 1, evidenceId := 1 })),
      (plainClock, .inr (.setFact 1 (Text.lit " k") (.int 2) 1 false))]

/-- The second value is revision 1 of another key: the readers still return the first. -/
theorem blank_key_splits :
    ¬ ∀ host (calls : List Call) taskId key, ((runCalls host .empty calls).task? taskId).isSome →
      OneSequence host (givenFacts host .empty calls) (runCalls host .empty calls) taskId key := by
  intro one
  have here : ((runCalls plainHost .empty blankKey).task? 1).isSome := by decide +kernel
  have numbered := (one plainHost blankKey 1 (Text.lit " k") here).numbered
  have written : (runCalls plainHost .empty blankKey).revisions (1, Text.lit " k") = [1] := by
    decide +kernel
  have given_ : ((givenFacts plainHost .empty blankKey).map GivenFact.named).count
      (1, Text.lit " k") = 2 := by decide +kernel
  rw [written, given_] at numbered
  cases numbered

end Cmpath
