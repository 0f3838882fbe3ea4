import Cmpath.Journal.StateMachine

/-!
# One revision counter, two writers

The engine and `TaskMemory` share `tasks.revision`. A task row only changes with its revision raised
by one (`RevisionStep`), so a writer that finds the revision it captured finds the row it captured.
A turn pins its task: the row cannot be deleted and made anew while the turn is in the journal.
-/

namespace Cmpath
open Lib Lib.Txn

/-- A call of one of the two writers. -/
abbrev Call : Type := Clock × (Op ⊕ MemoryOp)

/-- The call as an action on the database. -/
def callStep (call : Call) : Step :=
  match call.2 with
  | .inl op => ⟨call.1, .engine op⟩
  | .inr op => ⟨call.1, .memory op⟩

/-- The database after a sequence of calls of the two writers. -/
def runCalls (host : Host) (db : Db) (calls : List Call) : Db :=
  runSteps host db (calls.map callStep)

/-- What an action may do to a task row: nothing, or one raise of its revision, or the deletion
    `TaskMemory.delete_task` was asked for, of a task without turns. -/
def RevisionStep (action : Action) (row : TaskRow) (db db' : Db) : Prop :=
  db'.task? row.id = some row ∨
    (∃ new, db'.task? row.id = some new ∧ new.revision = row.revision + 1) ∨
      (action = .memory (.deleteTask row.id) ∧ (∀ t ∈ db.turns, t.taskId ≠ row.id) ∧
        db'.task? row.id = none)

section Rows

variable {host : Host} {db db' : Db} {row : TaskRow}

theorem task?_of_tasks {a b : Db} (same : b.tasks = a.tasks) (id : Int) :
    b.task? id = a.task? id := by
  unfold Db.task?
  rw [same]

/-- A row that rows are only added to stays. -/
theorem task?_additive {a b : Db} (h : Evolves Write.Additive a b) {id : Int}
    (found : a.task? id = some row) : b.task? id = some row := by
  refine h.inv (P := fun db => db.task? id = some row) (fun w db kind _ here => ?_) found
  cases w with
  | insertTask new =>
    show (db.tasks ++ [new]).find? _ = some row
    have here : db.tasks.find? (·.id == id) = some row := here
    rw [List.find?_append, here]
    rfl
  | replaceTask | deleteTasks | replaceMessage | deleteMessages | replaceFact | deleteFacts
  | replaceDependency | deleteDependencies | replaceAlias | deleteAliases => exact kind.elim
  | _ => exact here

/-- One row is replaced by one with a raised revision. -/
theorem task?_replace {a b : Db} {old new : TaskRow} (found : a.task? old.id = some old)
    (id : new.id = old.id) (tasks : b.tasks = Table.replace (·.id == old.id) new a.tasks)
    {other : Int} : b.task? other = if other = old.id then some new else a.task? other := by
  unfold Db.task?
  rw [tasks]
  split
  · rename_i same
    rw [same]
    exact Table.find?_replace_self found id
  · rename_i ne
    exact Table.find?_replace_ne id ne

theorem revisionStep_replace {action : Action} {old new : TaskRow} {taskId : Int}
    (tasks : db'.tasks = Table.replace (·.id == old.id) new db.tasks)
    (known : db.task? taskId = some old) (here : db.task? row.id = some row)
    (id : new.id = old.id) (raised : new.revision = old.revision + 1) :
    RevisionStep action row db db' := by
  have found : db.task? old.id = some old := by rw [task?_id known, known]
  unfold RevisionStep
  rw [task?_replace found id tasks]
  by_cases same : row.id = old.id
  · rw [same, found] at here
    cases here
    rw [if_pos rfl]
    exact .inr (.inl ⟨new, rfl, raised⟩)
  · rw [if_neg same]
    exact .inl here

end Rows

/-- The creation of a task. -/
def plainTask : List Call := [(plainClock, .inl (.createTask { title := Text.lit "t" }))]

/-! ## The engine -/

theorem reopened_tasks (db : Db) (row : TaskRow) :
    (db.reopened row).tasks =
      if row.status = .archived then Table.replace (·.id == row.id) row.reopen db.tasks
      else db.tasks := by
  unfold Db.reopened
  split <;> rfl

/-- The engine raises the revision where it writes a task row, and deletes none. -/
theorem Change.revision {host : Host} {kind : Kind} {db db' : Db} (c : Change host kind db db')
    {row : TaskRow} (here : db.task? row.id = some row) (action : Action) :
    RevisionStep action row db db' := by
  cases c with
  | additive evolves => exact .inl (task?_additive evolves here)
  | begun clk r c task payload basis input custom normal begun =>
    have tasks : db'.tasks = (db.reopened task).tasks := by rw [begun.after]; rfl
    rw [reopened_tasks] at tasks
    split at tasks
    · exact revisionStep_replace tasks begun.task here rfl rfl
    · exact .inl ((task?_of_tasks tasks _).trans here)
  | committed clk id generation reply t task facts snapshot edges done =>
    have factTasks : facts.tasks = db.tasks := (evolves_facts done.factual).1
    have tasks : db'.tasks = Table.replace (·.id == task.id) (task.withSnapshot snapshot) db.tasks := by
      rw [done.after, ← factTasks]
      rfl
    exact revisionStep_replace tasks done.task here rfl rfl
  | toolFinished clk id callId raw t call live pending known started finished =>
    obtain ⟨_, _, _, _, _, _, _, _, rfl⟩ := finished.taskEpoch
    exact .inl here
  | retired retiredAt cutoff =>
    have tables := (retireAll_tables retiredAt (db.candidateIds cutoff) db).1
    exact .inl ((task?_of_tasks (congrArg Tables.tasks tables) _).trans here)
  | _ => exact .inl here

/-! ## TaskMemory -/

namespace TaskMemory

theorem event_tasks {kind : EventKind} {taskId : Int} {now : Stamp} {db db' : Db} {u : Unit}
    (h : event kind taskId now db = .ok (u, db')) : db'.tasks = db.tasks := by
  rw [insertEvent_ok h]
  rfl

/-- `set_snapshot` replaces the row it was given the revision of. -/
theorem setSnapshot_ok {clk : Clock} {taskId : Int} {snapshot : Json} {expectedRevision : Int}
    {db db' : Db} {out : TaskRow}
    (h : setSnapshot clk taskId snapshot expectedRevision db = .ok (out, db')) :
    ∃ row, db.task? taskId = some row ∧ row.revision = expectedRevision ∧
      db'.tasks = Table.replace (·.id == row.id)
        { row with snapshot := snapshot, revision := row.revision + 1 } db.tasks := by
  simp only [setSnapshot, positive, bindableJson, bind_ok, ensure_ok] at h
  obtain ⟨_, _, ⟨_, rfl⟩, row, _, read, _, _, ⟨current, rfl⟩, _, _, ⟨_, rfl⟩, _, mid, update, _, _,
    logged, last⟩ := h
  obtain ⟨found, rfl⟩ := taskRow_ok read
  obtain ⟨_, rfl⟩ := taskRow_ok last
  refine ⟨row, found, by simpa using current, ?_⟩
  rw [event_tasks logged]
  rcases updateTask_ok update with ⟨old, same, rfl⟩ | ⟨missing, _⟩
  · rw [found] at same
    cases same
    rfl
  · rw [found] at missing
    cases missing

/-- `archive` raises the revision, of an archived task too. -/
theorem archive_ok {clk : Clock} {taskId : Int} {db db' : Db} {u : Unit}
    (h : archive clk taskId db = .ok (u, db')) :
    ∃ row, db.task? taskId = some row ∧ db'.tasks = Table.replace (·.id == row.id)
      { row with status := .archived, revision := row.revision + 1 } db.tasks := by
  simp only [archive, bind_ok, require_ok] at h
  obtain ⟨row, _, read, _, _, ⟨_, rfl⟩, _, mid, update, logged⟩ := h
  obtain ⟨found, rfl⟩ := taskRow_ok read
  refine ⟨row, found, ?_⟩
  rw [event_tasks logged]
  rcases updateTask_ok update with ⟨old, same, rfl⟩ | ⟨missing, _⟩
  · rw [found] at same
    cases same
    rfl
  · rw [found] at missing
    cases missing

/-- `resume` raises the revision of a task it opens again and leaves an open one alone. -/
theorem resume_ok {clk : Clock} {taskId : Int} {expectedVersion : Option Int} {db db' : Db}
    {out : Json} (h : resume clk taskId expectedVersion db = .ok (out, db')) :
    ∃ row, db.task? taskId = some row ∧
      db'.tasks = if row.status = .archived then
        Table.replace (·.id == row.id)
          { row with status := .opened, revision := row.revision + 1 } db.tasks
      else db.tasks := by
  simp only [resume, bind_ok, ensure_ok, require_ok] at h
  obtain ⟨_, _, ⟨_, rfl⟩, row, _, read, _, start, ⟨_, rfl⟩, _, active, state, run⟩ := h
  obtain ⟨found, rfl⟩ := taskRow_ok read
  have tasks : active.tasks = start.tasks := by rw [setActiveTask_ok state]; rfl
  refine ⟨row, found, ?_⟩
  split at run
  · rename_i archived
    simp only [bind_ok, pure_ok] at run
    obtain ⟨_, mid, update, _, _, logged, rfl, rfl⟩ := run
    rw [if_pos archived, event_tasks logged]
    rcases updateTask_ok update with ⟨old, same, rfl⟩ | ⟨missing, _⟩
    · rw [task?_of_tasks tasks, found] at same
      cases same
      rw [← tasks]
      rfl
    · rw [task?_of_tasks tasks, found] at missing
      cases missing
  · rename_i open_
    simp only [bind_ok, pure_ok] at run
    obtain ⟨_, _, logged, rfl, rfl⟩ := run
    rw [if_neg open_, event_tasks logged, tasks]

/-- `delete_task` is refused while a turn of the task is in the journal, and takes no other task. -/
theorem deleteTask_ok {clk : Clock} {taskId : Int} {db db' : Db} {u : Unit}
    (h : deleteTask clk taskId db = .ok (u, db')) :
    (∀ t ∈ db.turns, t.taskId ≠ taskId) ∧ db'.tasks = Table.delete (·.id == taskId) db.tasks := by
  simp only [deleteTask, bind_ok, require_ok, read_ok, Except.ok.injEq] at h
  obtain ⟨row, _, read, _, start, ⟨_, rfl⟩, active, _, ⟨rfl, rfl⟩, run⟩ := h
  obtain ⟨_, rfl⟩ := taskRow_ok read
  split at run
  · simp only [bind_ok] at run
    obtain ⟨_, mid, state, _, _, deleted, logged⟩ := run
    obtain ⟨free, tasks⟩ := Cmpath.deleteTask_ok deleted
    rw [setActiveTask_ok state] at free tasks
    exact ⟨free, (event_tasks logged).trans tasks⟩
  · simp only [bind_ok] at run
    obtain ⟨_, _, deleted, logged⟩ := run
    obtain ⟨free, tasks⟩ := Cmpath.deleteTask_ok deleted
    exact ⟨free, (event_tasks logged).trans tasks⟩

end TaskMemory

/-- So do the methods of `TaskMemory`, `delete_task` apart. -/
theorem MemoryOp.revision {host : Host} {clk : Clock} {op : MemoryOp} {db db' : Db} {out : Response}
    (h : op.run host clk db = .ok (out, db')) {row : TaskRow}
    (here : db.task? row.id = some row) : RevisionStep (.memory op) row db db' := by
  cases op with
  | createTask title parents aliases snapshot =>
    obtain ⟨_, run, _⟩ := responding_ok.mp h
    exact .inl (task?_additive ((TaskMemory.keeps_createTask _ _ _ _ _ _ _ _ _ run).mono
      fun _ => Write.Silent.additive) here)
  | setSnapshot taskId snapshot expectedRevision =>
    obtain ⟨_, run, _⟩ := responding_ok.mp h
    obtain ⟨old, found, _, tasks⟩ := TaskMemory.setSnapshot_ok run
    exact revisionStep_replace tasks found here rfl rfl
  | resume taskId expectedVersion =>
    obtain ⟨_, run, _⟩ := responding_ok.mp h
    obtain ⟨old, found, tasks⟩ := TaskMemory.resume_ok run
    split at tasks
    · exact revisionStep_replace tasks found here rfl rfl
    · exact .inl ((task?_of_tasks tasks _).trans here)
  | archive taskId =>
    obtain ⟨_, run, _⟩ := responding_ok.mp h
    obtain ⟨old, found, tasks⟩ := TaskMemory.archive_ok run
    exact revisionStep_replace tasks found here rfl rfl
  | deleteTask taskId =>
    obtain ⟨_, run, _⟩ := responding_ok.mp h
    obtain ⟨free, tasks⟩ := TaskMemory.deleteTask_ok run
    unfold RevisionStep Db.task?
    rw [tasks]
    by_cases same : row.id = taskId
    · subst same
      refine .inr (.inr ⟨rfl, free, List.find?_eq_none.mpr fun r member hit => ?_⟩)
      have stays := (Table.mem_delete.mp member).2
      rw [hit] at stays
      cases stays
    · refine .inl ((Table.find?_delete fun r _ hit => ?_).trans here)
      rw [beq_iff_eq.mp hit]
      simpa using same
  | append taskId role content source =>
    obtain ⟨_, run, _⟩ := responding_ok.mp h
    exact .inl (task?_additive (TaskMemory.keeps_append _ (fun _ => trivial) (fun _ _ _ => trivial) _ _ _ _ _ _ _ run) here)
  | setFact taskId key value evidenceId retracted =>
    obtain ⟨_, run, _⟩ := responding_ok.mp h
    exact .inl (task?_additive (TaskMemory.keeps_setFact _ (fun _ => trivial) (fun _ _ _ => trivial) _ _ _ _ _ _ _ _ run) here)

/-- **A task row changes by one raise of its revision.** -/
theorem Step.revision {host : Host} (call : Call) (db : Db) {row : TaskRow}
    (here : db.task? row.id = some row) :
    RevisionStep (callStep call).action row db ((callStep call).next host db) := by
  obtain ⟨clk, op | op⟩ := call
  · exact (Step.engine_change ⟨op, rfl⟩ db).revision here _
  · refine Step.next_cases (.inl here) fun out db' run => ?_
    exact MemoryOp.revision run here

/-! ## From Begin to Commit -/

/-- The turn is in the journal and its task has this row. -/
def Pinned (t : TurnRow) (row : TaskRow) (db : Db) : Prop :=
  (∃ u ∈ db.turns, t.sameRecord u) ∧ db.task? row.id = some row

/-- The turn can commit no more: it is retired, or its task has a later revision. -/
def Overtaken (t : TurnRow) (row : TaskRow) (db : Db) : Prop :=
  (∃ r ∈ db.retiredTurns, r.requestId = t.requestId) ∨
    ∃ new, Pinned t new db ∧ new.id = row.id ∧ row.revision < new.revision

section Pinned

variable {host : Host} {db : Db} {t : TurnRow} {row : TaskRow}

/-- A turn stays with its record until it is retired. -/
theorem Step.turn_or_retired (step : Step) (keys : JournalKeys db.toJournal)
    (live : ∃ u ∈ db.turns, t.sameRecord u) :
    (∃ u ∈ (step.next host db).turns, t.sameRecord u) ∨
      ∃ r ∈ (step.next host db).retiredTurns, r.requestId = t.requestId := by
  obtain ⟨u, member, record⟩ := live
  rcases step.change host db with change | evolves
  · rcases change.turn_step keys member with ⟨v, later, moved⟩ | removed
    · exact .inl ⟨v, later, TurnRow.sameRecord_trans record moved.record⟩
    · obtain ⟨_, tomb⟩ := removed.tombstone
      exact .inr ⟨_, tomb, record.1⟩
  · rw [congrArg Journal.turns evolves.journal]
    exact .inl ⟨u, member, record⟩

theorem Step.retired (step : Step) (keys : JournalKeys db.toJournal) {r : RetiredRow}
    (member : r ∈ db.retiredTurns) : r ∈ (step.next host db).retiredTurns := by
  rcases step.change host db with change | evolves
  · exact change.retired_step keys member
  · rw [congrArg Journal.retiredTurns evolves.journal]
    exact member

/-- The task of a turn that is in the journal is not deleted. -/
theorem Pinned.step (call : Call) (keys : JournalKeys db.toJournal) (own : t.taskId = row.id)
    (h : Pinned t row db) :
    Pinned t row ((callStep call).next host db) ∨
      Overtaken t row ((callStep call).next host db) := by
  obtain ⟨live, here⟩ := h
  rcases @Step.turn_or_retired host db t (callStep call) keys live with later | retired
  · rcases @Step.revision host call db row here with same | ⟨new, found, raised⟩ | ⟨_, free, _⟩
    · exact .inl ⟨later, same⟩
    · have id := task?_id found
      refine .inr (.inr ⟨new, ⟨later, ?_⟩, id, by omega⟩)
      rw [id]
      exact found
    · obtain ⟨u, member, record⟩ := live
      exact absurd (record.2.1.trans own) (free u member)
  · exact .inr (.inl retired)

theorem Overtaken.step (call : Call) (keys : JournalKeys db.toJournal) (own : t.taskId = row.id)
    (h : Overtaken t row db) : Overtaken t row ((callStep call).next host db) := by
  rcases h with ⟨r, member, same⟩ | ⟨new, pinned, id, later⟩
  · exact .inl ⟨r, (callStep call).retired keys member, same⟩
  · rcases @Pinned.step host db t new call keys (own.trans id.symm) pinned with still | retired | next
    · exact .inr ⟨new, still, id, later⟩
    · exact .inl retired
    · obtain ⟨newer, pinned', id', later'⟩ := next
      exact .inr ⟨newer, pinned', id'.trans id, by omega⟩

theorem runCalls_cons (call : Call) (rest : List Call) :
    runCalls host db (call :: rest) = runCalls host ((callStep call).next host db) rest := rfl

theorem Overtaken.run (own : t.taskId = row.id) : ∀ (calls : List Call) {db : Db},
    JournalKeys db.toJournal → Overtaken t row db → Overtaken t row (runCalls host db calls)
  | [], _, _, h => h
  | call :: rest, _, keys, h =>
      Overtaken.run own rest ((callStep call).keys keys) (h.step call keys own)

/-- As long as the turn can still commit, its task is as it was. -/
theorem Pinned.run (own : t.taskId = row.id) : ∀ (first second : List Call) {db : Db},
    JournalKeys db.toJournal → Pinned t row db →
    ¬ Overtaken t row (runCalls host db (first ++ second)) →
    Pinned t row (runCalls host db first)
  | [], _, _, _, h, _ => h
  | call :: rest, second, db, keys, h, open_ => by
      have keys' := @Step.keys host (callStep call) db keys
      rcases @Pinned.step host db t row call keys own h with pinned | overtaken
      · exact Pinned.run own rest second keys' pinned open_
      · exact absurd (overtaken.run own (rest ++ second) keys') open_

end Pinned

/-- A turn that commits was not overtaken. -/
theorem Committed.not_overtaken {host : Host} {clk : Clock} {id : Text} {generation : Int}
    {reply : Reply} {u : TurnRow} {task : TaskRow} {facts : Db} {snapshot : Json}
    {edges : List ProvenanceRow} {db db' : Db} {t : TurnRow} {row : TaskRow}
    (h : Committed host clk id generation reply u task facts snapshot edges db db')
    (keys : JournalKeys db.toJournal) (same : t.requestId = id)
    (captured : row.revision = t.taskRevision) (own : t.taskId = row.id) :
    ¬ Overtaken t row db := by
  have live := turn?_mem h.live
  have uid := turn?_id h.live
  rintro (⟨r, member, tomb⟩ | ⟨new, ⟨⟨v, member, record⟩, found⟩, newId, later⟩)
  · exact keys.apart u live r member (by rw [tomb, same, uid])
  · have : v = u := keys.turn_eq member live (by rw [record.1, same, uid])
    subst this
    have current := h.task
    rw [record.2.1, own, ← newId, found] at current
    cases current
    have revision := h.revision
    rw [record.2.2.2.2.2] at revision
    omega

/-- A new turn captures the revision its task has once it is open. -/
theorem Begun.pinned {host : Host} {clk : Clock} {r : Request} {c : Counter} {row : TaskRow}
    {payload : Package} {basis : List BasisRow} {db db' : Db}
    (h : Begun host clk r c row payload basis db db') :
    ∃ now : TaskRow, Pinned (newTurn host clk r row.reopenedRevision payload) now db' ∧
      now.id = r.taskId ∧ now.revision = row.reopenedRevision := by
  have tasks : db'.tasks = (db.reopened row).tasks := by rw [h.after]; rfl
  have turns : newTurn host clk r row.reopenedRevision payload ∈ db'.turns := by
    rw [h.after]
    exact List.mem_append_right _ (List.mem_singleton_self _)
  have id := task?_id h.task
  have live := (⟨_, turns, TurnRow.sameRecord_refl _⟩ :
    ∃ u ∈ db'.turns, (newTurn host clk r row.reopenedRevision payload).sameRecord u)
  rw [reopened_tasks] at tasks
  unfold TaskRow.reopenedRevision at live ⊢
  split at tasks
  · rename_i archived
    rw [if_pos archived] at live ⊢
    refine ⟨row.reopen, ⟨live, ?_⟩, id, rfl⟩
    have found : db.task? row.id = some row := by rw [id, h.task]
    rw [@task?_replace db db' row row.reopen found rfl tasks]
    exact if_pos rfl
  · rename_i open_
    rw [if_neg open_] at live ⊢
    refine ⟨row, ⟨live, ?_⟩, id, rfl⟩
    rw [task?_of_tasks tasks, id, h.task]

/-- **No lost snapshot update.** After any calls of the two writers: a call leaves a task row alone
    or raises its revision by one (or deletes a task that has no turn); `set_snapshot` replaces the
    row of the revision it was given; and whatever is called between a `Begin` that created a turn
    and the `Commit` that publishes it, the task keeps the very row it had right after `Begin`. -/
theorem no_lost_snapshot (host : Host) (before : List Call) :
    (∀ call row, (runCalls host .empty before).task? row.id = some row →
      RevisionStep (callStep call).action row (runCalls host .empty before)
        ((callStep call).next host (runCalls host .empty before))) ∧
    (∀ clk taskId snapshot expected out,
      (Step.exec host ⟨clk, .memory (.setSnapshot taskId snapshot expected)⟩
        (runCalls host .empty before)).1 = .ok out →
      ∃ row, (runCalls host .empty before).task? taskId = some row ∧ row.revision = expected) ∧
    ∀ clk input custom out,
      (Step.exec host ⟨clk, .engine (.begin input custom)⟩ (runCalls host .empty before)).1 =
        .ok (.turn out) → out.created = true →
      ∀ between clk' generation reply done,
        (Step.exec host ⟨clk', .engine (.commit out.requestId generation reply)⟩
          (runCalls host (Step.next host ⟨clk, .engine (.begin input custom)⟩
            (runCalls host .empty before)) between)).1 = .ok (.turn done) →
        done.replayed = false →
        ∃ row, row.revision = out.taskRevision ∧
          ∀ first second, between = first ++ second →
            (runCalls host (Step.next host ⟨clk, .engine (.begin input custom)⟩
              (runCalls host .empty before)) first).task? out.taskId = some row := by
  have keys : JournalKeys (runCalls host .empty before).toJournal := Reachable.keys ⟨_, rfl⟩
  refine ⟨fun call row here => Step.revision call _ here, ?_, ?_⟩
  · intro clk taskId snapshot expected out ok
    obtain ⟨_, run, _⟩ := responding_ok.mp (atomic_ok.mp (Prod.ext ok rfl))
    obtain ⟨row, found, current, _⟩ := TaskMemory.setSnapshot_ok run
    exact ⟨row, found, current⟩
  intro clk input custom out ok created between clk' generation reply done committed fresh
  obtain ⟨turn, run, answer⟩ := responding_ok.mp (atomic_ok.mp (Prod.ext ok rfl))
  cases answer
  obtain ⟨r, c, _, ⟨old, _, _, _, rfl, _⟩ | ⟨task, payload, basis, begun, rfl⟩⟩ := begin_ok run
  · cases created
  obtain ⟨row, pinned, id, captured⟩ := begun.pinned
  have own : (newTurn host clk r task.reopenedRevision payload).taskId = row.id := id.symm
  have keys' := @Step.keys host ⟨clk, .engine (.begin input custom)⟩ _ keys
  refine ⟨row, captured, fun first second split => ?_⟩
  obtain ⟨_, commit, reply⟩ := responding_ok.mp (atomic_ok.mp (Prod.ext committed rfl))
  cases reply
  obtain ⟨_, _, _, _, _, rfl, _⟩ | ⟨u, task', facts, next, edges, finish⟩ := commit_ok commit
  · cases fresh
  have keys'' := @runSteps_keys host (between.map callStep) _ keys'
  have open_ := finish.not_overtaken keys'' rfl captured own
  rw [split] at open_
  have still := (Pinned.run own first second keys' pinned open_).2
  rw [id] at still
  exact still

/-- A turn that is begun, and committed after a call on another task. -/
theorem no_lost_snapshot_committed :
    ∃ row : TaskRow, (runCalls plainHost (Step.next plainHost
      (plainStep (.begin plainRequest [plainCounter])) (runCalls plainHost .empty plainTask))
        plainTask).task? 1 = some row := by
  obtain ⟨_, _, pinned⟩ := no_lost_snapshot plainHost plainTask
  obtain ⟨out, begun, shape⟩ := exists_turn (p := fun t => t.created && t.taskId == 1 &&
    t.requestId == Text.lit "r")
    (x := (Step.exec plainHost (plainStep (.begin plainRequest [plainCounter]))
      (runCalls plainHost .empty plainTask)).1) (by decide +kernel)
  obtain ⟨done, committed, fresh⟩ := exists_turn (p := fun t => !t.replayed)
    (x := (Step.exec plainHost (plainStep (.commit (Text.lit "r") 1 { text := Text.lit "a" }))
      (runCalls plainHost (Step.next plainHost (plainStep (.begin plainRequest [plainCounter]))
        (runCalls plainHost .empty plainTask)) plainTask)).1) (by decide +kernel)
  simp only [Bool.and_eq_true, beq_iff_eq] at shape
  obtain ⟨⟨created, task⟩, id⟩ := shape
  rw [← id] at committed
  obtain ⟨row, _, same⟩ := pinned _ _ _ out begun created plainTask _ 1 _ done committed
    (by simpa using fresh)
  rw [← task]
  exact ⟨row, same plainTask [] (List.append_nil _).symm⟩

end Cmpath
