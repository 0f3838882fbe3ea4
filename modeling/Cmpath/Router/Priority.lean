import Cmpath.Journal.Change
import Cmpath.Lib.UpFront
import Cmpath.Router.WorkingSet

/-!
# Which evidence a pin of the Codex router puts first

A task of the working set holds its pinned messages that are not recent, then the recent ones, up to
a cap. A pinned message that is recent therefore stands among the recent ones: it keeps its place
before the others if and only if none of them is older.
-/

namespace Cmpath
open Lib Lib.Txn

namespace Router
open TaskMemory (check_ok cite)

/-! ## Accepted pins -/

/-- A router the calls on pins and sessions lead to, each over a store of its time. -/
inductive CodexRouter.Reached (config : CodexConfig) : CodexRouter → Prop where
  | fresh : Reached config { config := config }
  | pin {router next : CodexRouter} {taskId : Int} {ids : List Int} {db : Db}
      (before : Reached config router) (accepted : codexPin router taskId ids db = .ok next) :
      Reached config next
  | unpin {router next : CodexRouter} {taskId : Int} {answer : Bool}
      (before : Reached config router) (done : codexUnpin router taskId = .ok (answer, next)) :
      Reached config next
  | clear {router : CodexRouter} (before : Reached config router) :
      Reached config (codexClearPins router)
  | bind {router next : CodexRouter} {sessionId : Text} {taskId : Int} {db : Db}
      (before : Reached config router) (bound : bindSession router sessionId taskId db = .ok next) :
      Reached config next

/-- The pins of a router are few, and none is twice in its list. -/
structure CodexRouter.Capped (config : CodexConfig) (router : CodexRouter) : Prop where
  same : router.config = config
  pins : ∀ e ∈ router.pins.entries, e.2.Nodup ∧ (e.2.length : Int) ≤ config.maxPinnedEvidence

theorem CodexRouter.Capped.pinned {config : CodexConfig} {router : CodexRouter}
    (h : router.Capped config) (taskId : Int) :
    ((router.pins.get? taskId).getD []).Nodup ∧
      (((router.pins.get? taskId).getD []).length : Int) ≤ config.maxPinnedEvidence := by
  cases found : router.pins.get? taskId with
  | none => exact ⟨List.nodup_nil, config.positive.2.2.2.2.2.2.2.1⟩
  | some ids => exact h.pins _ (OrderedDict.mem_of_get? found)

theorem codexPin_capped {config : CodexConfig} {router next : CodexRouter} {taskId : Int}
    {ids : List Int} {db : Db} (capped : router.Capped config)
    (h : codexPin router taskId ids db = .ok next) : next.Capped config := by
  obtain ⟨_, _, h⟩ := except_bind_ok.mp h
  obtain ⟨_, few, h⟩ := except_bind_ok.mp h
  obtain ⟨_, _, h⟩ := except_bind_ok.mp h
  cases h
  refine ⟨capped.same, fun e member => ?_⟩
  rcases OrderedDict.mem_set member with rfl | old
  · refine ⟨TaskMemory.nodup_fromKeys _, ?_⟩
    rw [← capped.same]
    simpa using check_ok.mp few
  · refine capped.pins e ?_
    split at old
    · exact List.mem_of_mem_tail old
    · exact old

theorem CodexRouter.Reached.capped {config : CodexConfig} {router : CodexRouter}
    (h : router.Reached config) : router.Capped config := by
  induction h with
  | fresh => exact ⟨rfl, fun e member => absurd member List.not_mem_nil⟩
  | pin _ accepted ih => exact codexPin_capped ih accepted
  | unpin _ done ih =>
    obtain ⟨_, _, done⟩ := except_bind_ok.mp done
    cases done
    exact ⟨ih.same, fun e member => ih.pins e (List.mem_of_mem_filter member)⟩
  | clear _ ih => exact ⟨ih.same, fun e member => absurd member List.not_mem_nil⟩
  | bind _ bound ih =>
    obtain ⟨_, _, bound⟩ := except_bind_ok.mp bound
    obtain ⟨_, _, bound⟩ := except_bind_ok.mp bound
    obtain ⟨_, _, bound⟩ := except_bind_ok.mp bound
    cases bound
    exact ⟨ih.same, ih.pins⟩

/-! ## What a working set holds where everything fits -/

section Plan

variable (config : CodexConfig) (pins : OrderedDict Int (List Int)) (recent : Int) (db : Db)

/-- The evidence of a task that is considered, in order. -/
def taskCandidates (taskId : Int) : List MessageRow :=
  let rows := transcript db taskId
  let recentRows := newest recent rows
  workCandidates (requestedItems ((pins.get? taskId).getD []) rows recentRows) recentRows

/-- A task of the working set with all the evidence the cap leaves. -/
def plannedTask (task : TaskRow) : WorkingTask where
  taskId := task.id
  title := task.title
  evidence := (taskCandidates pins recent db task.id).take config.maxPinnedEvidence.toNat
  trimmed := true

/-- The tasks of the working set, with all that evidence. -/
def workPlan (session : Option Int) : List WorkingTask :=
  (workingTaskIds config pins session).filterMap fun id =>
    (db.task? id).map (plannedTask config pins recent db)

end Plan

/-- The payload of a working set of these tasks. -/
def tasksPayload (host : Host) (tasks : List WorkingTask) : Json :=
  { tasks := tasks, shown := tasks.flatMap fun t => t.evidence.map cite : WorkingSet }.payload host

/-- The budget admits every package on the way to these tasks: whole tasks, and a part of the
    evidence of the next one. -/
def Admits (host : Host) (p : Prompt) (plan : List WorkingTask) : Prop :=
  ∀ done next rest shown, plan = done ++ next :: rest → shown <+: next.evidence →
    p.fits (tasksPayload host (done ++ [{ next with evidence := shown, trimmed := false }])) =
      .ok true
/-! ## The candidates of a task -/

section Candidates

variable {db : Db}

theorem knownTask_eq {taskId : Int} {found : Option TaskRow} (h : knownTask taskId db = .ok found) :
    found = db.task? taskId := by
  cases found with
  | some row => exact (knownTask_ok h).symm
  | none =>
    unfold knownTask boundTask TaskMemory.findTask at h
    cases positive : decide (1 ≤ taskId) with
    | false =>
      rw [positive] at h
      cases h
    | true =>
      cases small : decide (taskId < 2 ^ 63) with
      | false =>
        rw [positive, small] at h
        cases h
      | true =>
        cases row : db.task? taskId with
        | none => rfl
        | some row' =>
          rw [positive, small, row] at h
          cases h

theorem nodup_transcript (keys : db.MessageKeys) (taskId : Int) :
    ((transcript db taskId).map (·.id)).Nodup := by
  unfold transcript
  rw [((List.mergeSort_perm _ _).map _).nodup_iff]
  exact keys.keyed.sublist (List.filter_sublist.map _)

theorem pinnedRows_ids (ids : List Int) (rows : List MessageRow) :
    ((pinnedRows ids rows).map (·.id)).Sublist ids := by
  induction ids with
  | nil => exact List.Sublist.refl _
  | cons id rest ih =>
    unfold pinnedRows
    cases found : rows.find? fun m => m.id == id with
    | none =>
      simp only [List.filterMap_cons, found]
      exact ih.cons _
    | some m =>
      have same : m.id = id := by simpa using List.find?_some found
      simp only [List.filterMap_cons, found, List.map_cons, same]
      exact ih.cons_cons _

theorem mem_pinnedRows {ids : List Int} {rows : List MessageRow} {m : MessageRow}
    (h : m ∈ pinnedRows ids rows) : m ∈ rows ∧ m.id ∈ ids := by
  obtain ⟨id, asked, found⟩ := List.mem_filterMap.mp h
  have same : m.id = id := by simpa using List.find?_some found
  exact ⟨List.mem_of_find?_eq_some found, same ▸ asked⟩

/-- A pinned message that is there is found. -/
theorem mem_pinnedRows_of {ids : List Int} {rows : List MessageRow} {m : MessageRow}
    (keyed : (rows.map (·.id)).Nodup) (here : m ∈ rows) (asked : m.id ∈ ids) :
    m ∈ pinnedRows ids rows :=
  List.mem_filterMap.mpr ⟨m.id, asked, Table.Keyed.find?_eq keyed here⟩

theorem mem_requestedItems {ids : List Int} {rows recentRows : List MessageRow} {m : MessageRow} :
    m ∈ requestedItems ids rows recentRows ↔
      m ∈ pinnedRows ids rows ∧ ∀ r ∈ recentRows, r.id ≠ m.id := by
  unfold requestedItems
  simp [List.mem_filter]

/-- What is requested is not recent, so no recent message is left out. -/
theorem workCandidates_requested (ids : List Int) (rows recentRows : List MessageRow) :
    workCandidates (requestedItems ids rows recentRows) recentRows =
      requestedItems ids rows recentRows ++ recentRows := by
  unfold workCandidates
  congr 1
  rw [List.filter_eq_self]
  intro m recent
  simp only [Bool.not_eq_true', List.any_eq_false, beq_iff_eq]
  intro r requested same
  exact (mem_requestedItems.mp requested).2 m recent same.symm

theorem nodup_taskCandidates {pins : OrderedDict Int (List Int)} {recent taskId : Int}
    (keys : db.MessageKeys) (distinct : ((pins.get? taskId).getD []).Nodup) :
    ((taskCandidates pins recent db taskId).map (·.id)).Nodup := by
  unfold taskCandidates
  dsimp only
  rw [workCandidates_requested, List.map_append]
  refine List.nodup_append.mpr ⟨?_, ?_, fun a asked b recent_ same => ?_⟩
  · unfold requestedItems
    exact (distinct.sublist (pinnedRows_ids _ _)).sublist (List.filter_sublist.map _)
  · exact (nodup_transcript keys taskId).sublist ((List.drop_sublist _ _).map _)
  · obtain ⟨m, requested, rfl⟩ := List.mem_map.mp asked
    obtain ⟨r, late, rfl⟩ := List.mem_map.mp recent_
    exact (mem_requestedItems.mp requested).2 r late same.symm

theorem mem_taskCandidates {pins : OrderedDict Int (List Int)} {recent taskId : Int}
    {m : MessageRow} (h : m ∈ taskCandidates pins recent db taskId) :
    m ∈ db.messages ∧ m.taskId = taskId :=
  mem_transcript (mem_workCandidates (fun _ => mem_newest) h)

end Candidates

/-! ## Packing where everything fits -/

section Packing

variable {host : Host} {config : CodexConfig} {p : Prompt} {db : Db}

/-- What is packed makes the payload. -/
theorem payload_eq {w : WorkingSet} (shown : w.shown = w.tasks.flatMap fun t => t.evidence.map cite) :
    w.payload host = tasksPayload host w.tasks := by
  unfold tasksPayload WorkingSet.payload
  rw [shown]

/-- A message that is new and fits is put at the end. -/
theorem workEvidence_fits {before : WorkingSet} {item : WorkingTask} {m : MessageRow}
    {next : WorkingSet × WorkingTask} (fresh : m.id ∉ before.selected)
    (room : (item.evidence.length : Int) < config.maxPinnedEvidence)
    (shown : before.shown = before.tasks.flatMap (fun t => t.evidence.map cite) ++
      item.evidence.map cite)
    (fits : p.fits (tasksPayload host
      (before.tasks ++ [{ item with evidence := item.evidence ++ [m] }])) = .ok true)
    (h : workEvidence host config p before item m = .ok next) :
    next.1.tasks = before.tasks ∧ next.1.selected = m.id :: before.selected ∧
      next.1.shown = before.shown ++ [cite m] ∧
      next.2 = { item with evidence := item.evidence ++ [m] } := by
  unfold workEvidence at h
  rw [if_neg (by simpa using fresh), if_neg (by omega)] at h
  obtain ⟨answer, counted, h⟩ := except_bind_ok.mp h
  rw [payload_eq (by simp [shown, cite])] at counted
  rw [fits] at counted
  cases counted
  cases h
  exact ⟨rfl, rfl, rfl, rfl⟩

/-- Beyond the cap nothing is put. -/
theorem workEvidences_full {rows : List MessageRow} {before : WorkingSet} {item : WorkingTask}
    {done : WorkingSet × WorkingTask} (full : config.maxPinnedEvidence ≤ item.evidence.length)
    (h : workEvidences host config p before item rows = .ok done) :
    done.1.tasks = before.tasks ∧ done.1.selected = before.selected ∧
      done.1.shown = before.shown ∧ done.2 = item := by
  induction rows generalizing before with
  | nil =>
    cases h
    exact ⟨rfl, rfl, rfl, rfl⟩
  | cons m rest ih =>
    obtain ⟨next, first, later⟩ := except_bind_ok.mp h
    unfold workEvidence at first
    by_cases seen : before.selected.contains m.id = true
    · rw [if_pos seen] at first
      cases first
      exact ih later
    · rw [if_neg seen, if_pos full] at first
      cases first
      obtain ⟨tasks, selected, shown, same⟩ := ih later
      exact ⟨tasks, selected, shown, same⟩

/-- The messages of a task that are new and fit are put at the end, up to the cap. -/
theorem workEvidences_fits {rows : List MessageRow} {before : WorkingSet} {item : WorkingTask}
    {done : WorkingSet × WorkingTask} (h : workEvidences host config p before item rows = .ok done)
    (distinct : (rows.map (·.id)).Nodup)
    (fresh : ∀ m ∈ rows, m.id ∉ before.selected)
    (room : (item.evidence.length : Int) ≤ config.maxPinnedEvidence)
    (shown : before.shown = before.tasks.flatMap (fun t => t.evidence.map cite) ++
      item.evidence.map cite)
    (fits : ∀ part, part <+: (item.evidence ++ rows).take config.maxPinnedEvidence.toNat →
      p.fits (tasksPayload host (before.tasks ++ [{ item with evidence := part }])) = .ok true) :
    done.1.tasks = before.tasks ∧ done.2 =
        { item with evidence := (item.evidence ++ rows).take config.maxPinnedEvidence.toNat } ∧
      done.1.shown = done.1.tasks.flatMap (fun t => t.evidence.map cite) ++
        done.2.evidence.map cite ∧
      ∀ id ∈ done.1.selected, id ∈ before.selected ∨ ∃ m ∈ rows, m.id = id := by
  induction rows generalizing before item with
  | nil =>
    cases h
    refine ⟨rfl, ?_, shown, fun id member => .inl member⟩
    rw [List.append_nil, List.take_of_length_le (by omega)]
  | cons m rest ih =>
    by_cases full : config.maxPinnedEvidence ≤ item.evidence.length
    · obtain ⟨tasks, selected, shown', same⟩ := workEvidences_full full h
      refine ⟨tasks, ?_, by rw [shown', tasks, same, shown], fun id member => .inl (selected ▸ member)⟩
      rw [same, List.take_left' (by omega)]
    · have space : (item.evidence.length : Int) < config.maxPinnedEvidence := by omega
      obtain ⟨next, first, later⟩ := except_bind_ok.mp h
      have part : item.evidence ++ [m] <+:
          (item.evidence ++ m :: rest).take config.maxPinnedEvidence.toNat := by
        rw [List.prefix_take_iff]
        refine ⟨⟨rest, by simp⟩, ?_⟩
        rw [List.length_append, List.length_singleton]
        omega
      obtain ⟨tasks, selected, shown', put⟩ := workEvidence_fits (fresh m List.mem_cons_self) space
        shown (fits _ part) first
      obtain ⟨new, distinct'⟩ := List.nodup_cons.mp distinct
      have fresh' : ∀ x ∈ rest, x.id ∉ next.1.selected := by
        intro x member
        rw [selected, List.mem_cons, not_or]
        exact ⟨fun same => new (List.mem_map.mpr ⟨x, member, same⟩),
          fresh x (List.mem_cons_of_mem _ member)⟩
      have room' : (next.2.evidence.length : Int) ≤ config.maxPinnedEvidence := by
        rw [put]
        show ((item.evidence ++ [m]).length : Int) ≤ _
        rw [List.length_append, List.length_singleton]
        omega
      have shown'' : next.1.shown = next.1.tasks.flatMap (fun t => t.evidence.map cite) ++
          next.2.evidence.map cite := by
        rw [shown', tasks, put, shown]
        simp
      have whole : next.2.evidence ++ rest = item.evidence ++ m :: rest := by
        rw [put]
        simp
      obtain ⟨tasks', packed, last, chosen⟩ := ih later distinct' fresh' room' shown'' (by
        intro part' prefix_
        rw [whole] at prefix_
        rw [tasks, put]
        exact fits part' prefix_)
      refine ⟨tasks'.trans tasks, by rw [packed, whole, put], last, fun id member => ?_⟩
      rcases chosen id member with old | ⟨x, later', same⟩
      · rw [selected] at old
        rcases List.mem_cons.mp old with rfl | old
        · exact .inr ⟨m, List.mem_cons_self, rfl⟩
        · exact .inl old
      · exact .inr ⟨x, List.mem_cons_of_mem _ later', same⟩

/-- The set holds these tasks: they are shown, and what is selected is theirs. -/
structure WorkingSet.Holds (db : Db) (w : WorkingSet) (tasks : List WorkingTask) : Prop where
  packed : w.tasks = tasks
  shown : w.shown = tasks.flatMap fun t => t.evidence.map cite
  selected : ∀ id ∈ w.selected, ∃ m ∈ db.messages, m.id = id ∧ ∃ t ∈ tasks, t.taskId = m.taskId

/-- A task that is not held yet is held with its plan. -/
theorem workTask_fits {pins : OrderedDict Int (List Int)} {recent taskId : Int}
    {w next : WorkingSet} {tasks : List WorkingTask} (keys : db.MessageKeys)
    (distinct : ((pins.get? taskId).getD []).Nodup) (holds : w.Holds db tasks)
    (new : ∀ t ∈ tasks, t.taskId ≠ taskId)
    (fits : ∀ task, db.task? taskId = some task →
      ∀ part, part <+: (plannedTask config pins recent db task).evidence →
        p.fits (tasksPayload host (tasks ++
          [{ plannedTask config pins recent db task with evidence := part, trimmed := false }])) =
          .ok true)
    (h : workTask host config p pins recent w taskId db = .ok next) :
    next.Holds db
      (tasks ++ ((db.task? taskId).map (plannedTask config pins recent db)).toList) := by
  obtain ⟨known, found, run⟩ := except_bind_ok.mp h
  rw [← knownTask_eq found]
  cases known with
  | none =>
    cases run
    rw [Option.map_none, Option.toList_none, List.append_nil]
    exact ⟨holds.packed, holds.shown, holds.selected⟩
  | some task =>
    have here := knownTask_ok found
    have id : task.id = taskId := task?_id here
    have admitted := fits task here
    obtain ⟨answer, counted, run⟩ := except_bind_ok.mp run
    have first : answer = true := by
      rw [payload_eq (by simp [holds.packed, holds.shown]), holds.packed] at counted
      have empty := admitted [] List.nil_prefix
      rw [show ({ taskId := task.id, title := task.title } : WorkingTask) =
        { plannedTask config pins recent db task with evidence := [], trimmed := false } from rfl,
        empty] at counted
      exact (Except.ok.inj counted).symm
    subst first
    obtain ⟨done, packed, last⟩ := except_bind_ok.mp run
    cases last
    rw [← id] at packed distinct new
    have mine : ∀ m ∈ taskCandidates pins recent db task.id, m.id ∉ w.selected := by
      intro m candidate chosen
      obtain ⟨other, stored, same, t, held, its⟩ := holds.selected _ chosen
      obtain ⟨stored', taskId'⟩ := mem_taskCandidates candidate
      have one : other = m := keys.keyed.eq_of_mem stored stored' same
      exact new t held (by rw [its, one, taskId'])
    have room : (([] : List MessageRow).length : Int) ≤ config.maxPinnedEvidence :=
      config.positive.2.2.2.2.2.2.2.1
    have shown : w.shown = w.tasks.flatMap (fun t => t.evidence.map cite) ++
        ([] : List MessageRow).map cite := by simp [holds.packed, holds.shown]
    have every : ∀ part, part <+: ([] ++ taskCandidates pins recent db task.id).take
        config.maxPinnedEvidence.toNat → p.fits (tasksPayload host (w.tasks ++
          [{ taskId := task.id, title := task.title, evidence := part }])) = .ok true := by
      intro part prefix_
      rw [holds.packed]
      exact admitted part prefix_
    obtain ⟨tasks', put, shown, selected⟩ := workEvidences_fits packed
      (nodup_taskCandidates keys distinct) mine room shown every
    refine ⟨?_, ?_, fun id' member => ?_⟩
    · show done.1.tasks ++ [{ done.2 with trimmed := true }] = _
      rw [tasks', put]
      exact congrArg (· ++ _) holds.packed
    · show done.1.shown = _
      rw [shown, tasks', put]
      show w.tasks.flatMap (fun t => t.evidence.map cite) ++ _ = _
      rw [holds.packed, List.flatMap_append, Option.map_some, Option.toList_some,
        List.flatMap_singleton]
      rfl
    · rcases selected id' member with old | ⟨m, candidate, same⟩
      · obtain ⟨m, stored, same, t, held, its⟩ := holds.selected id' old
        exact ⟨m, stored, same, t, List.mem_append_left _ held, its⟩
      · obtain ⟨stored, taskId'⟩ := mem_taskCandidates candidate
        exact ⟨m, stored, same, plannedTask config pins recent db task, by simp,
          taskId'.symm⟩

/-- The tasks of a working set that are not held yet are held with their plans. -/
theorem workTasks_fits {pins : OrderedDict Int (List Int)} {recent : Int} {taskIds : List Int}
    {w done : WorkingSet} {tasks : List WorkingTask} (keys : db.MessageKeys)
    (distinct : ∀ id, ((pins.get? id).getD []).Nodup) (holds : w.Holds db tasks)
    (new : ∀ id ∈ taskIds, ∀ t ∈ tasks, t.taskId ≠ id) (once : taskIds.Nodup)
    (fits : Admits host p (tasks ++ taskIds.filterMap fun id =>
      (db.task? id).map (plannedTask config pins recent db)))
    (h : workTasks host config p pins recent w taskIds db = .ok done) :
    done.Holds db (tasks ++ taskIds.filterMap fun id =>
      (db.task? id).map (plannedTask config pins recent db)) := by
  induction taskIds generalizing w tasks with
  | nil =>
    cases h
    rw [List.filterMap_nil, List.append_nil]
    exact holds
  | cons taskId rest ih =>
    obtain ⟨next, first, later⟩ := except_bind_ok.mp h
    have plan : tasks ++ (taskId :: rest).filterMap (fun id =>
        (db.task? id).map (plannedTask config pins recent db)) =
        (tasks ++ ((db.task? taskId).map (plannedTask config pins recent db)).toList) ++
          rest.filterMap fun id => (db.task? id).map (plannedTask config pins recent db) := by
      cases row : db.task? taskId <;> simp [row]
    have holds' := workTask_fits keys (distinct taskId) holds (new taskId List.mem_cons_self)
      (by
        intro task here part prefix_
        refine fits tasks _ (rest.filterMap fun id =>
          (db.task? id).map (plannedTask config pins recent db)) part ?_ prefix_
        rw [plan, here, Option.map_some, Option.toList_some, List.append_assoc,
          List.singleton_append]) first
    rw [plan] at fits ⊢
    obtain ⟨gone, once'⟩ := List.nodup_cons.mp once
    refine ih holds' (fun id member t held => ?_) once' fits later
    rcases List.mem_append.mp held with old | last
    · exact new id (List.mem_cons_of_mem _ member) t old
    · obtain ⟨row, found, rfl⟩ := Option.map_eq_some_iff.mp (Option.mem_toList.mp last)
      rintro rfl
      exact gone (task?_id found ▸ member)

end Packing

/-! ## Priority -/

section Priority

variable {host : Host} {db : Db}

/-- The evidence of a task of the package: every message pinned for it that there is, and none that
    is only recent before one of these. -/
structure PinsFirst (db : Db) (ids : List Int) (t : WorkingTask) : Prop where
  kept : ∀ m ∈ transcript db t.taskId, m.id ∈ ids → m ∈ t.evidence
  first : UpFront (fun m : MessageRow => m.id ∈ ids) t.evidence

/-- No message that is not pinned is older than a pinned one, of the recent messages. -/
def NoneOlder (db : Db) (ids : List Int) (recent taskId : Int) : Prop :=
  UpFront (fun m : MessageRow => m.id ∈ ids) (newest recent (transcript db taskId))

theorem plannedTask_pinsFirst {config : CodexConfig} {pins : OrderedDict Int (List Int)}
    {recent : Int} {task : TaskRow} (keys : db.MessageKeys)
    (pinned : ((pins.get? task.id).getD []).Nodup ∧
      (((pins.get? task.id).getD []).length : Int) ≤ config.maxPinnedEvidence) :
    PinsFirst db ((pins.get? task.id).getD []) (plannedTask config pins recent db task) ↔
      NoneOlder db ((pins.get? task.id).getD []) recent task.id := by
  set ids := (pins.get? task.id).getD []
  set rows := transcript db task.id with transcribed
  set recentRows := newest recent rows
  have keyed : (rows.map (·.id)).Nodup := nodup_transcript keys task.id
  have whole : taskCandidates pins recent db task.id =
      requestedItems ids rows recentRows ++ recentRows := workCandidates_requested ids rows recentRows
  have distinct : ((taskCandidates pins recent db task.id).map (·.id)).Nodup :=
    nodup_taskCandidates keys pinned.1
  have asked : ∀ m ∈ requestedItems ids rows recentRows, m.id ∈ ids := fun m member =>
    (mem_pinnedRows (mem_requestedItems.mp member).1).2
  have considered : ∀ m, m.id ∈ ids → (m ∈ requestedItems ids rows recentRows ++ recentRows ↔
      m ∈ rows) := by
    intro m want
    rw [List.mem_append, mem_requestedItems]
    constructor
    · rintro (⟨found, _⟩ | late)
      · exact (mem_pinnedRows found).1
      · exact mem_newest late
    · intro here
      by_cases late : ∃ r ∈ recentRows, r.id = m.id
      · obtain ⟨r, member, same⟩ := late
        rw [Table.Keyed.eq_of_mem keyed (mem_newest member) here same] at member
        exact .inr member
      · exact .inl ⟨mem_pinnedRows_of keyed here want, fun r member same => late ⟨r, member, same⟩⟩
  have few : ((requestedItems ids rows recentRows ++ recentRows).filter fun m =>
      m.id ∈ ids).length ≤ config.maxPinnedEvidence.toNat := by
    rw [← whole]
    have ids_ := distinct.sublist
      ((List.filter_sublist (p := fun m : MessageRow => decide (m.id ∈ ids))).map (·.id))
    have inside : ((taskCandidates pins recent db task.id).filter fun m =>
        m.id ∈ ids).map (·.id) ⊆ ids := by
      intro id member
      obtain ⟨m, selected, rfl⟩ := List.mem_map.mp member
      simpa using (List.mem_filter.mp selected).2
    have := (ids_.subperm inside).length_le
    rw [List.length_map] at this
    omega
  have cut := UpFront.take_iff (whole ▸ List.Nodup.of_map _ distinct) few
  have evidence : (plannedTask config pins recent db task).evidence =
      (requestedItems ids rows recentRows ++ recentRows).take config.maxPinnedEvidence.toNat := by
    rw [← whole]
    rfl
  constructor
  · rintro ⟨kept, first⟩
    rw [evidence] at kept first
    refine (cut.mp ⟨fun m candidate want => ?_, first⟩).sublist (List.sublist_append_right _ _)
    exact kept m ((considered m want).mp candidate) want
  · intro front
    obtain ⟨kept, first⟩ := cut.mpr (UpFront.append asked front)
    rw [← evidence] at kept first
    exact ⟨fun m here want => kept m ((considered m want).mpr here) want, first⟩

theorem plan_taskIds {config : CodexConfig} {pins : OrderedDict Int (List Int)} {recent : Int}
    (ids : List Int) : (ids.filterMap fun id =>
      (db.task? id).map (plannedTask config pins recent db)).map (·.taskId) =
      ids.filter fun id => (db.task? id).isSome := by
  induction ids with
  | nil => rfl
  | cons id rest ih =>
    cases row : db.task? id with
    | none => simpa [row] using ih
    | some task =>
      have same : task.id = id := task?_id row
      simpa [row, plannedTask, same] using ih

/-- **Pins come first where none of the others is older.** For every store, router reached, prompt,
    decision and `recent`, if the budget admits the whole working set, then the package holds, task
    by task, that working set, and the evidence of a task has its pinned messages, all of them, before
    every other message if and only if none of its recent messages that is not pinned is older than
    one that is. -/
theorem pins_first_iff {config : CodexConfig} {router : CodexRouter} {p : Prompt}
    {d : CodexDecision} {recent : Int} {context : RoutedContext} (store : Reachable host db)
    (accepted : router.Reached config)
    (roomy : Admits host p (workPlan config router.pins recent db d.sessionTaskId))
    (answer : pinnedContext host p router d recent db = .ok context) :
    ∃ w : WorkingSet, Carries p (w.payload host) context ∧
      context.citations = w.tasks.flatMap (fun t => t.evidence.map cite) ∧
      w.tasks.map (·.taskId) = (workingTaskIds config router.pins d.sessionTaskId).filter
        (fun id => (db.task? id).isSome) ∧
      ∀ t ∈ w.tasks, PinsFirst db ((router.pins.get? t.taskId).getD []) t ↔
        NoneOlder db ((router.pins.get? t.taskId).getD []) recent t.taskId := by
  have keys := store.messageKeys
  have capped := accepted.capped
  obtain ⟨_, _, h⟩ := except_bind_ok.mp answer
  obtain ⟨_, _, h⟩ := except_bind_ok.mp h
  obtain ⟨w, packed, h⟩ := except_bind_ok.mp h
  obtain ⟨ms, messages, h⟩ := except_bind_ok.mp h
  obtain ⟨used, counted, h⟩ := except_bind_ok.mp h
  obtain ⟨_, within, h⟩ := except_bind_ok.mp h
  obtain ⟨text, spelled, h⟩ := except_bind_ok.mp h
  cases h
  rw [capped.same] at packed
  obtain ⟨once, _, _⟩ := workingTaskIds_spec config router.pins d.sessionTaskId
  have start : WorkingSet.Holds db {} [] :=
    ⟨rfl, rfl, fun id none_ => absurd none_ List.not_mem_nil⟩
  have sound : WorkingSet.Sound db config {} [] :=
    ⟨fun t none_ => absurd none_ List.not_mem_nil, rfl, rfl⟩
  have holds : w.Holds db (workPlan config router.pins recent db d.sessionTaskId) :=
    workTasks_fits keys (fun id => (capped.pinned id).1) start
      (fun _ _ t none_ => absurd none_ List.not_mem_nil) once roomy packed
  refine ⟨w, ⟨⟨ms, messages, spelled⟩, counted, by simpa using check_ok.mp within⟩, ?_, ?_, ?_⟩
  · show w.citations = _
    rw [(workTasks_ok sound packed).1.cited, List.map_nil, List.append_nil]
  · rw [holds.packed]
    exact plan_taskIds _
  · intro t member
    rw [holds.packed] at member
    obtain ⟨id, _, found⟩ := List.mem_filterMap.mp member
    obtain ⟨row, here, rfl⟩ := Option.map_eq_some_iff.mp found
    exact plannedTask_pinsFirst keys (capped.pinned row.id)

end Priority

/-! ## A task of five messages -/

/-- A task and five messages. -/
def fiveMessages : List Step :=
  ⟨plainClock, .memory (.createTask (Text.lit "t") [] [] (.obj []))⟩ ::
    List.replicate 5 ⟨plainClock, .memory (.append 1 (Text.lit "user") (Text.lit "m") (.obj []))⟩

def fiveDb : Db := runSteps plainHost .empty fiveMessages

/-- A prompt in the session of the task. -/
def taskDecision : CodexDecision := { route := .pinned, sessionTaskId := some 1 }

/-- A router with these messages of the task pinned. -/
def routerWith (ids : List Int) : CodexRouter := { pins := OrderedDict.empty.set 1 ids }

def plainPrompt : Prompt := plainCall.counted ⟨1200, 0, 12, 3⟩

theorem working_five (ids : List Int) : workingTaskIds (routerWith ids).config (routerWith ids).pins
    taskDecision.sessionTaskId = [1] := by rfl

theorem transcript_five : transcript fiveDb 1 = fiveDb.messages := by
  have sorted : (fiveDb.messages.filter (·.taskId == 1)).Pairwise
      fun a b => decide (a.id ≤ b.id) = true := by decide +kernel
  have all : fiveDb.messages.filter (·.taskId == 1) = fiveDb.messages :=
    List.filter_eq_self.mpr (by decide +kernel)
  unfold transcript
  rw [List.mergeSort_of_pairwise sorted, all]

theorem admits_single {host : Host} {p : Prompt} {t : WorkingTask}
    (fits : ∀ part ∈ t.evidence.inits, (p.fits (tasksPayload host
      [{ t with evidence := part, trimmed := false }])).toOption = some true) :
    Admits host p [t] := by
  intro done next rest part split prefix_
  cases done with
  | nil =>
    cases split
    have one := fits part ((List.mem_inits _ _).mpr prefix_)
    rw [List.nil_append]
    cases counted : p.fits (tasksPayload host [{ t with evidence := part, trimmed := false }]) with
    | error e =>
      rw [counted] at one
      cases one
    | ok answer =>
      rw [counted] at one
      cases one
      rfl
  | cons head done =>
    rw [List.cons_append] at split
    cases done <;> cases split

/-- The candidates of the task, with these messages pinned. -/
theorem candidates_five (ids : List Int) (recent : Int) :
    taskCandidates (routerWith ids).pins recent fiveDb 1 =
      workCandidates (requestedItems ids fiveDb.messages (newest recent fiveDb.messages))
        (newest recent fiveDb.messages) := by
  unfold taskCandidates
  rw [transcript_five]
  rfl

/-- The budget admits the task with these messages pinned. -/
def FiveAdmitted (ids : List Int) : Prop :=
  ∀ part ∈ ((workCandidates (requestedItems ids fiveDb.messages (newest 3 fiveDb.messages))
      (newest 3 fiveDb.messages)).take 4).inits, (plainPrompt.fits (tasksPayload plainHost
        [{ taskId := 1, title := Text.lit "t", evidence := part }])).toOption = some true

theorem admits_five {ids : List Int} (fits : FiveAdmitted ids) :
    Admits plainHost plainPrompt (workPlan {} (routerWith ids).pins 3 fiveDb (some 1)) := by
  have one : workPlan {} (routerWith ids).pins 3 fiveDb (some 1) =
      [plannedTask {} (routerWith ids).pins 3 fiveDb
        ⟨1, Text.lit "t", .opened, .obj [], 1, .epoch⟩] := by rfl
  rw [one]
  refine admits_single fun part prefix_ => fits part ?_
  rw [← candidates_five]
  exact prefix_

theorem pins_first_iff_recent :
    ∃ context, pinnedContext plainHost plainPrompt (routerWith [1, 3]) taskDecision 3 fiveDb =
        .ok context ∧
      ∃ w : WorkingSet, Carries plainPrompt (w.payload plainHost) context ∧
        context.citations = w.tasks.flatMap (fun t => t.evidence.map cite) ∧
        w.tasks.map (·.taskId) = (workingTaskIds {} (routerWith [1, 3]).pins (some 1)).filter
          (fun id => (fiveDb.task? id).isSome) ∧
        ∀ t ∈ w.tasks, PinsFirst fiveDb (((routerWith [1, 3]).pins.get? t.taskId).getD []) t ↔
          NoneOlder fiveDb (((routerWith [1, 3]).pins.get? t.taskId).getD []) 3 t.taskId := by
  obtain ⟨context, run⟩ := exists_ok
    (x := pinnedContext plainHost plainPrompt (routerWith [1, 3]) taskDecision 3 fiveDb) (by
      unfold pinnedContext
      rw [working_five]
      unfold workTasks workTask
      rw [transcript_five]
      decide +kernel)
  have accepted : (routerWith [1, 3]).Reached {} :=
    .pin .fresh (show codexPin {} 1 [1, 3] fiveDb = .ok (routerWith [1, 3]) by rfl)
  have fits : FiveAdmitted [1, 3] := by
    unfold FiveAdmitted
    decide +kernel
  exact ⟨context, run, pins_first_iff ⟨fiveMessages, rfl⟩ accepted (admits_five fits) run⟩

/-- A pinned message is cut where one that is only recent stays. -/
theorem pinned_cut :
    Reachable plainHost fiveDb ∧ (routerWith [1, 2, 4, 5]).Reached {} ∧
      Admits plainHost plainPrompt
        (workPlan {} (routerWith [1, 2, 4, 5]).pins 3 fiveDb taskDecision.sessionTaskId) ∧
      (∃ m ∈ transcript fiveDb 1, cite m = Text.lit "T1:M5") ∧
      (pinnedContext plainHost plainPrompt (routerWith [1, 2, 4, 5]) taskDecision 3
        fiveDb).toOption.map (·.citations) =
        some [Text.lit "T1:M1", Text.lit "T1:M2", Text.lit "T1:M3", Text.lit "T1:M4"] := by
  have fits : FiveAdmitted [1, 2, 4, 5] := by
    unfold FiveAdmitted
    decide +kernel
  refine ⟨⟨fiveMessages, rfl⟩,
    .pin .fresh (show codexPin {} 1 [1, 2, 4, 5] fiveDb = .ok (routerWith [1, 2, 4, 5]) by rfl),
    admits_five fits, ?_, ?_⟩
  · rw [transcript_five]
    decide +kernel
  · unfold pinnedContext
    rw [working_five]
    unfold workTasks workTask
    rw [transcript_five]
    decide +kernel

end Router

end Cmpath
