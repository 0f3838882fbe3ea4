import Cmpath.Journal.Revision
import Cmpath.Store.Clock

/-!
# Freshness of a scope

A turn of consistency `scope` holds the clocks of the tasks it was packed from. Whatever runs after
its `Begin`, the distance between these clocks and the current ones counts the row writes in the
scope that are not results of the turn's own tools (`Tracked`). So the turn is fresh exactly when
there were none, and then the rows of the scope are those `Begin` left and these results.
-/

namespace Cmpath
open Lib Lib.Txn

/-- The firings one step adds to the log. -/
def Step.touched (host : Host) (step : Step) (db : Db) : List Touch :=
  (step.next host db).writes.take ((step.next host db).writes.length - db.writes.length)

/-- The step is a `FinishTool` of the turn. -/
def Step.finishes (id : Text) (step : Step) : Bool :=
  match step.action with
  | .engine (.finishTool own _ _ _ _) => own == id
  | _ => false

/-- The firings of a run that no `FinishTool` of the turn caused. -/
def foreignTouches (host : Host) (id : Text) : Db → List Step → List Touch
  | _, [] => []
  | db, step :: rest =>
      foreignTouches host id (step.next host db) rest ++
        if step.finishes id then [] else step.touched host db

/-- The messages the turn's own tools left in a run. -/
def ownResults (host : Host) (id : Text) : Db → List Step → List MessageRow
  | _, [] => []
  | db, step :: rest =>
      (if step.finishes id then (step.next host db).messages.drop db.messages.length else []) ++
        ownResults host id (step.next host db) rest

/-- The slice with further messages. -/
def Slice.plus (s : Slice) (results : List MessageRow) : Slice :=
  { s with messages := s.messages ++ results }

/-- The step did something the turn must be fresh for: it started a call, recorded a model request
    or committed. -/
def Step.Relies (host : Host) (id : Text) (step : Step) (db : Db) : Prop :=
  (∃ generation callId name args call,
    step.action = .engine (.startTool id generation callId name args) ∧
      (step.exec host db).1 = .ok (.tool call) ∧ call.created = true) ∨
  (∃ generation callId payload units counting,
    step.action = .engine (.recordModelRequest id generation callId payload units counting) ∧
      db.modelCall? id callId = none ∧ (step.exec host db).1 = .ok .done) ∨
  ∃ generation reply turn, step.action = .engine (.commit id generation reply) ∧
    (step.exec host db).1 = .ok (.turn turn) ∧ turn.replayed = false

/-! ## The log of a step -/

theorem Based.logged {allowed : Write → Prop} {a b : Db} (h : Based allowed a b) :
    ∃ added, Logged added a b := by
  obtain ⟨mid, evolves, tables, epochs, writes⟩ := h
  obtain ⟨added, log⟩ := evolves.logged
  refine ⟨added, writes.trans log.writes, log.named, ?_, ?_⟩
  · intro key e here
    have later := log.clocks here
    unfold Db.epoch? at later ⊢
    rw [epochs]
    exact later
  · intro p outside
    rw [← log.rows outside]
    unfold Db.slice
    rw [tables]

/-- Whatever the action, the log tells what it did to the clocks and the rows. -/
theorem Step.logged (host : Host) (step : Step) (db : Db) :
    Logged (step.touched host db) db (step.next host db) := by
  obtain ⟨added, log⟩ := (step.based host db).logged
  have same : step.touched host db = added := by
    unfold Step.touched
    rw [log.writes, List.length_append, Nat.add_sub_cancel, List.take_left']
    rfl
  rw [same]
  exact log

/-! ## The basis under the operations -/

/-- The captured clocks of a turn. -/
def Db.basisOf (db : Db) (id : Text) : List BasisRow := db.turnBasis.filter (·.requestId == id)

section Basis

variable {host : Host} {clk : Clock} {db db' : Db} {id : Text}

/-- Only `FinishTool` moves a captured clock; `Begin` captures those of a new turn. -/
theorem Op.basis_same {op : Op} {out : Response} (h : op.run host clk db = .ok (out, db'))
    (finish : ∀ own generation callId result tokens,
      op ≠ .finishTool own generation callId result tokens)
    (retire : ∀ cutoff planHash, op ≠ .applyRetention cutoff planHash)
    (known : (db.turn? id).isSome) : db'.basisOf id = db.basisOf id := by
  have same : ∀ {a b : Db}, b.toJournal = a.toJournal → b.basisOf id = a.basisOf id := by
    intro a b journal
    unfold Db.basisOf
    rw [journal]
  have ofRead : ∀ {α : Type} {q : Query α} {respond : α → Response},
      responding respond (read q) db = .ok (out, db') → db'.basisOf id = db.basisOf id := by
    intro α q respond run
    obtain ⟨_, run, _⟩ := responding_ok.mp run
    rw [(read_ok.mp run).2]
  cases op with
  | createTask input =>
    obtain ⟨_, run, _⟩ := responding_ok.mp h
    exact same (keeps_createTask _ _ _ _ _ _ run).journal
  | appendBatch inputs =>
    obtain ⟨_, run, _⟩ := responding_ok.mp h
    have added : Evolves Write.Additive _ _ := keeps_appendBatch (fun _ => trivial) _ _ _ _ _ run
    exact same added.journal
  | setFact taskId f =>
    obtain ⟨_, run, _⟩ := responding_ok.mp h
    exact same (@keeps_setFact Write.Any (fun _ => trivial) _ _ _ _ _ _ run).journal
  | begin r custom =>
    obtain ⟨_, run, _⟩ := responding_ok.mp h
    obtain ⟨r', c, _, ⟨_, _, _, _, _, rfl⟩ | ⟨row, payload, basis, begun, _⟩⟩ := begin_ok run
    · rfl
    · have other : r'.requestId ≠ id := by
        rintro rfl
        rw [begun.unknown] at known
        cases known
      unfold Db.basisOf
      rw [congrArg Journal.turnBasis begun.journal]
      apply Table.filter_append_of_disjoint
      intro b member
      rw [begun.captured.own b member]
      simpa using other
  | recover id generation =>
    obtain ⟨_, run, _⟩ := responding_ok.mp h
    obtain ⟨_, _, _, _, _, _, _, rfl⟩ := recover_ok run
    rfl
  | commit id generation reply =>
    obtain ⟨_, run, _⟩ := responding_ok.mp h
    obtain ⟨_, _, _, _, _, _, rfl⟩ | ⟨t, row, facts, snapshot, edges, committed⟩ := commit_ok run
    · rfl
    · unfold Db.basisOf
      rw [congrArg Journal.turnBasis committed.journal]
  | abort id generation =>
    obtain ⟨_, run, _⟩ := responding_ok.mp h
    obtain ⟨_, _, _, _, rfl⟩ := abort_ok run
    rfl
  | actionEligible id generation callId ttlMs =>
    obtain ⟨_, run, _⟩ := responding_ok.mp h
    obtain ⟨_, _, _, _, _, _, _, _, _, _, _, _, _, _, _, rfl⟩ := actionEligible_ok run
    rfl
  | startTool id generation callId name args =>
    obtain ⟨_, run, _⟩ := responding_ok.mp h
    obtain ⟨_, _, _, _, _, _, ⟨_, _, _, _, rfl⟩ | ⟨_, _, _, _, rfl⟩⟩ := startTool_ok run <;> rfl
  | finishTool own generation callId result tokens =>
    exact absurd rfl (finish own generation callId result tokens)
  | recordModelRequest id generation callId payload units counting =>
    obtain ⟨_, run, _⟩ := responding_ok.mp h
    obtain ⟨_, _, _, _, _, _, _, _, ⟨_, _, rfl⟩ | ⟨_, _, rfl⟩⟩ := recordModelRequest_ok run <;> rfl
  | recordModelResponse id generation callId response =>
    obtain ⟨_, run, _⟩ := responding_ok.mp h
    obtain ⟨_, _, _, _, _, _, _, ⟨_, _, rfl⟩ | ⟨_, rfl⟩⟩ := recordModelResponse_ok run <;> rfl
  | applyRetention cutoff planHash => exact absurd rfl (retire cutoff planHash)
  | retentionPlan cutoff => exact ofRead h
  | task id => exact ofRead h
  | turn id => exact ofRead h
  | tools id => exact ofRead h
  | modelCalls id => exact ofRead h
  | search query ids limit => exact ofRead h
  | preview r custom => exact ofRead h

/-- A turn that retention left kept its clocks. -/
theorem retireAll_basis (keys : JournalKeys db.toJournal) (retiredAt : Stamp) (cutoff : Instant)
    (later : ((db.retireAll retiredAt (db.candidateIds cutoff)).turn? id).isSome) :
    (db.retireAll retiredAt (db.candidateIds cutoff)).basisOf id = db.basisOf id := by
  have journal := retireAll_journal keys retiredAt cutoff
  obtain ⟨u, found⟩ := Option.isSome_iff_exists.mp later
  have kept := turn?_mem found
  rw [congrArg Journal.turns journal] at kept
  have spared := (Table.mem_delete.mp kept).2
  rw [turn?_id found] at spared
  unfold Db.basisOf
  rw [congrArg Journal.turnBasis journal]
  apply Table.filter_delete_of_disjoint
  intro b _ own
  rw [beq_iff_eq.mp own, spared]

theorem basisOf_moveBasis (id own : Text) (key delta : Int) (basis : List BasisRow) :
    (moveBasis own key delta basis).filter (·.requestId == id) =
      (basis.filter (·.requestId == id)).map fun b =>
        if own = id ∧ b.taskId = key then { b with epoch := b.epoch + delta } else b := by
  induction basis with
  | nil => rfl
  | cons b rest ih =>
    unfold moveBasis Table.update at ih ⊢
    rw [List.map_cons, List.filter_cons, List.filter_cons, ih]
    by_cases mine : b.requestId = id
    · subst mine
      by_cases same : own = b.requestId
      · subst same
        by_cases here : b.taskId = key <;> simp [here]
      · simp [same, Ne.symm same]
    · by_cases hit : (b.requestId == own && b.taskId == key) = true <;> simp [hit, mine]

/-- No step but a `FinishTool` of the turn moves its captured clocks. -/
theorem Step.basis (step : Step) (keys : JournalKeys db.toJournal)
    (other : step.finishes id = false) (known : (db.turn? id).isSome)
    (later : ((step.next host db).turn? id).isSome) :
    (step.next host db).basisOf id = db.basisOf id := by
  have kept : ∀ {b : Db}, Evolves Write.Any db b → b.basisOf id = db.basisOf id := by
    intro b evolves
    unfold Db.basisOf
    rw [evolves.journal]
  cases same : step.action with
  | memory op =>
    refine step.next_cases (P := fun d => d.basisOf id = db.basisOf id) rfl fun out db' run => ?_
    rw [same] at run
    exact kept (keeps_memory host step.clk op db out db' run)
  | direct write =>
    refine step.next_cases (P := fun d => d.basisOf id = db.basisOf id) rfl fun out db' run => ?_
    rw [same] at run
    exact kept (keeps_direct_run write db out db' run)
  | engine op =>
    unfold Step.next Step.exec at later ⊢
    rw [same] at later ⊢
    cases run : (Action.engine op).run host step.clk db with
    | error e =>
      rw [atomic_of_error run]
    | ok result =>
      obtain ⟨out, db'⟩ := result
      rw [atomic_ok.mpr run] at later ⊢
      dsimp only at later ⊢
      by_cases finish : ∃ own generation callId result tokens,
          op = .finishTool own generation callId result tokens
      · obtain ⟨own, generation, callId, result, tokens, rfl⟩ := finish
        obtain ⟨_, run, _⟩ := responding_ok.mp run
        have apart : own ≠ id := by
          rintro rfl
          rw [Step.finishes, same] at other
          simp at other
        obtain ⟨t, call, _, _, _, _, ⟨_, rfl⟩ | ⟨_, finished⟩⟩ := finishTool_ok run
        · rfl
        · obtain ⟨_, _, _, _, _, _, _, _, rfl⟩ := finished.taskEpoch
          show (moveBasis _ _ _ (moveBasis _ _ _ db.turnBasis)).filter _ = _
          rw [basisOf_moveBasis, basisOf_moveBasis]
          simp only [apart, false_and, if_false, List.map_id']
          rfl
      by_cases retire : ∃ cutoff planHash, op = .applyRetention cutoff planHash
      · obtain ⟨cutoff, planHash, rfl⟩ := retire
        obtain ⟨_, run, _⟩ := responding_ok.mp run
        obtain ⟨before, _, _, _, rfl⟩ := applyRetention_ok run
        exact retireAll_basis keys _ before later
      · simp only [not_exists] at finish retire
        exact Op.basis_same run finish retire known

end Basis

/-! ## The invariant -/

theorem Slice.plus_plus (s : Slice) (first second : List MessageRow) :
    (s.plus first).plus second = s.plus (first ++ second) := by
  unfold Slice.plus
  rw [List.append_assoc]

theorem slice_insertMessage {p : Int → Bool} {m : MessageRow} {db : Db} (mine : p m.taskId = true) :
    (db.insertMessage m).slice p = (db.slice p).plus [m] := by
  show Slice.mk _ ((db.messages ++ [m]).filter _) _ _ _ = Slice.mk _ (_ ++ [m]) _ _ _
  have own : [m].filter (p ·.taskId) = [m] := List.filter_cons_of_pos mine
  rw [List.filter_append, own]
  rfl

/-- What the run since `start` tells about the database: the captured clocks of the turn stand
    behind the current ones by the foreign firings, and while none of these is in the scope the
    scope has the rows of `start` and the turn's own results. -/
structure Tracked (t : TurnRow) (p : Int → Bool) (watched : List Int) (start : Db)
    (foreign : List Touch) (results : List MessageRow) (db : Db) : Prop where
  live : ∃ u ∈ db.turns, t.sameRecord u
  keys : (db.basisOf t.requestId).map (·.taskId) = watched
  clocks : ∀ b ∈ db.basisOf t.requestId,
    db.epoch? b.taskId = some (b.epoch + weights b.taskId foreign)
  rows : (∀ x ∈ foreign, x.inside p = false) → db.slice p = (start.slice p).plus results

namespace Tracked

variable {host : Host} {t : TurnRow} {p : Int → Bool} {watched : List Int} {start db : Db}
variable {foreign : List Touch} {results : List MessageRow}

/-- A step of anybody else. -/
theorem other (h : Tracked t p watched start foreign results db) (keys : JournalKeys db.toJournal)
    (step : Step) (foreign_ : step.finishes t.requestId = false)
    (later : ∃ u ∈ (step.next host db).turns, t.sameRecord u) :
    Tracked t p watched start (step.touched host db ++ foreign) results (step.next host db) := by
  have known : ∀ {d : Db}, (∃ u ∈ d.turns, t.sameRecord u) → (d.turn? t.requestId).isSome := by
    rintro d ⟨u, member, record⟩
    exact List.find?_isSome.mpr ⟨u, member, by simp [record.1]⟩
  have basis := step.basis keys foreign_ (known h.live) (known later)
  have log := step.logged host db
  refine ⟨later, ?_, ?_, ?_⟩
  · rw [basis]
    exact h.keys
  · intro b member
    rw [basis] at member
    rw [log.clocks (h.clocks b member), weights_append]
    congr 1
    omega
  · intro outside
    rw [log.rows fun x member => outside x (List.mem_append_left _ member)]
    exact h.rows fun x member => outside x (List.mem_append_right _ member)

/-- A new result of the turn: its evidence is in the scope, and the captured clocks move with it. -/
theorem finished {clk : Clock} {callId : Text} {raw : Json} {u : TurnRow} {call : ToolRow} {db' : Db}
    (h : Tracked t p watched start foreign results db) (keys : JournalKeys db.toJournal)
    (positive : t.taskId ≠ 0) (mine : p t.taskId = true)
    (found : db.turn? t.requestId = some u)
    (run : Finished clk t.requestId callId raw u call db db')
    (later : ∃ v ∈ db'.turns, t.sameRecord v) :
    Tracked t p watched start foreign (results ++ db'.messages.drop db.messages.length) db' := by
  obtain ⟨v, member, record⟩ := h.live
  have same : v = u :=
    keys.turn_eq member (turn?_mem found) (by rw [record.1, turn?_id found])
  subst same
  have task : v.taskId = t.taskId := record.2.1
  have log : Logged [⟨none, some v.taskId⟩] db
      (db.insertMessage (resultMessage db clk v.taskId call raw)) :=
    @Write.logged (.insertMessage (resultMessage db clk v.taskId call raw)) db ⟨rfl, run.task⟩
  obtain ⟨before, after, atBefore, atAfter, globalBefore, globalAfter, zeroBefore, zeroAfter, rfl⟩ :=
    run.taskEpoch
  have moved := Option.some.inj (atAfter.symm.trans (log.clocks atBefore))
  have globalMoved := Option.some.inj (zeroAfter.symm.trans (log.clocks zeroBefore))
  have basis : ∀ d : Db, d.turnBasis = moveBasis t.requestId 0 (globalAfter - globalBefore)
      (moveBasis t.requestId v.taskId (after - before) db.turnBasis) →
      d.basisOf t.requestId = (db.basisOf t.requestId).map fun b =>
        { b with epoch := b.epoch + weights b.taskId [⟨none, some v.taskId⟩] } := by
    intro d moves
    unfold Db.basisOf
    rw [moves, basisOf_moveBasis, basisOf_moveBasis, List.map_map]
    apply List.map_congr_left
    intro b _
    rw [task] at moved ⊢
    simp only [Function.comp, true_and, weights, Touch.weight, Touch.touches, List.map_cons,
      List.map_nil, List.sum_cons, List.sum_nil] at moved globalMoved ⊢
    by_cases here : b.taskId = t.taskId
    · simp [here, positive] at moved ⊢
      omega
    by_cases zero : b.taskId = 0
    · simp [zero, Ne.symm positive, positive] at globalMoved ⊢
      omega
    · simp [here, zero, Ne.symm here]
  refine ⟨later, ?_, ?_, ?_⟩
  · rw [basis _ rfl, List.map_map]
    exact h.keys
  · intro b moved
    rw [basis _ rfl] at moved
    obtain ⟨c, source, rfl⟩ := List.mem_map.mp moved
    have now := log.clocks (h.clocks c source)
    show _ = some (c.epoch + weights c.taskId _ + weights c.taskId foreign)
    rw [Int.add_right_comm]
    exact now
  · intro outside
    show (db.insertMessage (resultMessage db clk v.taskId call raw)).slice p =
      (start.slice p).plus (results ++ List.drop db.messages.length
        (db.messages ++ [resultMessage db clk v.taskId call raw]))
    rw [slice_insertMessage (task ▸ mine), h.rows outside, List.drop_left, Slice.plus_plus]

/-- A `FinishTool` of the turn. -/
theorem finish (h : Tracked t p watched start foreign results db) (keys : JournalKeys db.toJournal)
    (positive : t.taskId ≠ 0) (mine : p t.taskId = true)
    (step : Step) (own : step.finishes t.requestId = true)
    (later : ∃ u ∈ (step.next host db).turns, t.sameRecord u) :
    Tracked t p watched start foreign
      (results ++ (step.next host db).messages.drop db.messages.length) (step.next host db) := by
  have stays : Tracked t p watched start foreign
      (results ++ db.messages.drop db.messages.length) db := by
    rw [List.drop_length, List.append_nil]
    exact h
  unfold Step.finishes at own
  split at own
  · rename_i id generation callId result tokens same
    have id_ := beq_iff_eq.mp own
    subst id_
    revert later
    refine step.next_cases (P := fun d => (∃ u ∈ d.turns, t.sameRecord u) →
      Tracked t p watched start foreign (results ++ d.messages.drop db.messages.length) d)
      (fun _ => stays) ?_
    intro out db' run later
    rw [same] at run
    obtain ⟨_, run, _⟩ := responding_ok.mp run
    obtain ⟨u, call, live, _, _, _, ⟨_, rfl⟩ | ⟨_, finished⟩⟩ := finishTool_ok run
    · exact stays
    · exact h.finished keys positive mine live finished later
  · cases own

/-- After any run the turn is tracked still, or it was retired. -/
theorem run (positive : t.taskId ≠ 0) (mine : p t.taskId = true) (steps : List Step)
    (h : Tracked t p watched start foreign results db) (keys : JournalKeys db.toJournal) :
    Tracked t p watched start (foreignTouches host t.requestId db steps ++ foreign)
        (results ++ ownResults host t.requestId db steps) (runSteps host db steps) ∨
      ∃ r ∈ (runSteps host db steps).retiredTurns, r.requestId = t.requestId := by
  induction steps generalizing db foreign results with
  | nil =>
    left
    rw [foreignTouches, ownResults, List.nil_append, List.append_nil]
    exact h
  | cons step rest ih =>
    have keys' := @Step.keys host step db keys
    rcases @Step.turn_or_retired host db t step keys h.live with later | ⟨r, tomb, same⟩
    · unfold foreignTouches ownResults
      cases own : step.finishes t.requestId with
      | true =>
        rw [if_pos rfl, if_pos rfl, List.append_nil, ← List.append_assoc]
        exact ih (h.finish keys positive mine step own later) keys'
      | false =>
        rw [if_neg Bool.false_ne_true, if_neg Bool.false_ne_true, List.nil_append,
          List.append_assoc]
        exact ih (h.other keys step own later) keys'
    · right
      have every : ∀ (d : Db) (step : Step), True →
          (JournalKeys d.toJournal ∧ ∃ r ∈ d.retiredTurns, r.requestId = t.requestId) →
            JournalKeys (step.next host d).toJournal ∧
              ∃ r ∈ (step.next host d).retiredTurns, r.requestId = t.requestId := by
        rintro d step _ ⟨keys, r, tomb, same⟩
        exact ⟨step.keys keys, r, step.retired keys tomb, same⟩
      exact (runSteps_inv every (fun _ _ => trivial) ⟨keys', r, tomb, same⟩).2

end Tracked

/-! ## Tasks are numbered from one -/

/-- No task has the key of the clock of the whole database. -/
def Db.Numbered (db : Db) : Prop := 0 ≤ db.sequence.tasks ∧ ∀ r ∈ db.tasks, 0 < r.id

theorem Write.numbered {w : Write} {db : Db} (legal : w.Legal db) (h : db.Numbered) :
    (w.apply db).Numbered := by
  obtain ⟨count, ids⟩ := h
  cases w with
  | insertTask new =>
    have next : new.id = db.sequence.tasks + 1 := legal
    refine ⟨by show 0 ≤ new.id; omega, fun r member => ?_⟩
    rcases List.mem_append.mp member with member | member
    · exact ids r member
    · rw [List.mem_singleton.mp member]
      omega
  | replaceTask old new =>
    refine ⟨count, fun r member => ?_⟩
    rcases Table.mem_replace member with rfl | member
    · rw [legal.2]
      exact ids old (List.mem_of_find?_eq_some legal.1)
    · exact ids r member
  | deleteTasks gone =>
    refine ⟨by simpa [Write.apply, Db.deleteTasks] using count, fun r member => ?_⟩
    rw [Write.apply, Db.deleteTasks, touchAll_tasks] at member
    exact ids r (Table.mem_delete.mp member).1
  | deleteMessages | deleteFacts | deleteDependencies | deleteAliases =>
    unfold Db.Numbered
    rw [Write.apply]
    first
      | rw [Db.deleteMessages, touchAll_sequence, touchAll_tasks]; exact ⟨count, ids⟩
      | rw [Db.deleteFacts, touchAll_sequence, touchAll_tasks]; exact ⟨count, ids⟩
      | rw [Db.deleteDependencies, touchAll_sequence, touchAll_tasks]; exact ⟨count, ids⟩
      | rw [Db.deleteAliases, touchAll_sequence, touchAll_tasks]; exact ⟨count, ids⟩
  | _ => exact ⟨count, ids⟩

theorem Reachable.numbered {host : Host} {db : Db} (h : Reachable host db) : db.Numbered := by
  refine h.inv ⟨le_refl 0, by simp [Db.empty]⟩ ?_
  intro db step numbered
  obtain ⟨mid, evolves, tables, _⟩ := step.based host db
  have kept : mid.Numbered := evolves.inv (fun w _ _ legal h => w.numbered legal h) numbered
  unfold Db.Numbered
  rw [tables]
  exact kept

/-- Zero is no task of a scope that is not the whole database. -/
theorem zero_out_of_scope {db : Db} (linked : db.Linked) (numbered : db.Numbered) {taskId : Int}
    {kind : Text} (positive : 0 < taskId) (part : kind ≠ Text.lit "all") :
    ¬ InScope db taskId kind 0 := by
  rintro (whole | ⟨_, same⟩ | ⟨_, within⟩)
  · exact part whole
  · omega
  · have present : ∀ {n : Nat}, Walk.Within db.parents taskId n 0 → False := by
      intro n
      induction n with
      | zero =>
        intro root
        have : (0 : Int) = taskId := root
        omega
      | succ n ih =>
        rintro (earlier | ⟨mid, _, parent⟩)
        · exact ih earlier
        · rw [Db.parents, List.mem_insertionSort] at parent
          obtain ⟨d, edge, zero⟩ := List.mem_map.mp parent
          obtain ⟨row, found⟩ :=
            Option.isSome_iff_exists.mp (linked d (List.mem_filter.mp edge).1)
          have := numbered.2 row (List.mem_of_find?_eq_some found)
          rw [task?_id found, zero] at this
          omega
    exact present within

/-! ## Clocks that stand still -/

theorem foreignTouches_named {host : Host} {id : Text} {x : Touch} : ∀ {steps : List Step} {db : Db},
    x ∈ foreignTouches host id db steps → x.old.isSome ∨ x.new.isSome
  | [], _, member => absurd member List.not_mem_nil
  | step :: rest, db, member => by
      rcases List.mem_append.mp member with member | member
      · exact foreignTouches_named member
      · split at member
        · exact absurd member List.not_mem_nil
        · exact (step.logged host db).named x member

/-- The clocks a turn watches stand still exactly when no firing is in its scope. -/
theorem weights_watched {foreign : List Touch} {ids : Option (List Int)}
    (named : ∀ x ∈ foreign, x.old.isSome ∨ x.new.isSome)
    (zero : ∀ l, ids = some l → (0 : Int) ∉ l) :
    (∀ key ∈ ids.getD [0], weights key foreign = 0) ↔
      ∀ x ∈ foreign, ∀ id, ids.all (·.contains id) = true → x.touches id = false := by
  cases ids with
  | none =>
    simp only [Option.getD_none, List.mem_singleton, forall_eq, weights_eq_zero, Option.all_none,
      forall_const]
    constructor
    · intro still x member
      have := still x member
      unfold Touch.weight at this
      split at this <;> simp at this
    · intro outside x member
      rcases named x member with some_ | some_
      all_goals
        obtain ⟨id, same⟩ := Option.isSome_iff_exists.mp some_
        have := outside x member id
        simp [Touch.touches, same] at this
  | some l =>
    simp only [Option.getD_some, weights_eq_zero, Option.all_some, List.contains_iff_mem]
    have apart : ∀ key ∈ l, key ≠ 0 := by
      rintro key member rfl
      exact zero l rfl member
    constructor
    · intro still x member id inside
      have := still id inside x member
      unfold Touch.weight at this
      rw [if_neg (apart id inside)] at this
      cases hit : x.touches id with
      | false => rfl
      | true => simp [hit] at this
    · intro outside key inside x member
      unfold Touch.weight
      rw [if_neg (apart key inside), outside x member key inside]
      rfl

theorem inside_eq_false {x : Touch} {p : Int → Bool} :
    x.inside p = false ↔ ∀ id, p id = true → x.touches id = false := by
  constructor
  · intro outside id mine
    cases hit : x.touches id with
    | false => rfl
    | true =>
      unfold Touch.touches at hit
      unfold Touch.inside at outside
      rcases Bool.or_eq_true_iff.mp hit with same | same
      all_goals
        rw [beq_iff_eq.mp same] at outside
        simp [mine] at outside
  · intro outside
    obtain ⟨old, new⟩ := x
    unfold Touch.inside
    rw [Bool.or_eq_false_iff]
    constructor
    · cases old with
      | none => rfl
      | some id =>
        cases mine : p id with
        | false => exact mine
        | true => simpa [Touch.touches] using outside id mine
    · cases new with
      | none => rfl
      | some id =>
        cases mine : p id with
        | false => exact mine
        | true => simpa [Touch.touches] using outside id mine

/-! ## Freshness -/

/-- A turn of consistency `scope` was begun: its request, and the databases before and after. -/
structure BegunScoped (host : Host) (clk : Clock) (input r : Request) (custom : List CustomCounter)
    (out : Turn) (db : Db) : Prop where
  normal : ∃ c, normalizeRequest input custom = .ok (r, c)
  bound : r.scopeBound = true
  begun : (Step.exec host ⟨clk, .engine (.begin input custom)⟩ db).1 = .ok (.turn out)
  created : out.created = true

/-- The scope and the consistency of a stored request read back. -/
theorem Normal.decoded {input r : Request} (h : Normal input r) :
    r.decoded.scope = r.scope ∧ r.decoded.scopeBound = r.scopeBound := by
  have consistency : r.decoded.consistency = r.consistency := by
    show Json.scrubText r.consistency = r.consistency
    rcases h.consistency with same | same <;> rw [same] <;> rfl
  constructor
  · show Json.scrubText r.scope = r.scope
    rcases h.scope with same | same | same <;> rw [same] <;> rfl
  · unfold Request.scopeBound
    rw [consistency]

theorem InScope.self {db : Db} {taskId : Int} {kind : Text}
    (known : kind = Text.lit "task" ∨ kind = Text.lit "lineage" ∨ kind = Text.lit "all") :
    InScope db taskId kind taskId := by
  rcases known with same | same | same
  · exact .inr (.inl ⟨same, rfl⟩)
  · exact .inr (.inr ⟨same, Walk.Within.start 3⟩)
  · exact .inl same

/-- What a scoped turn was begun with: its request and the tasks of its scope right after
    `Begin`. -/
structure Anchor (r : Request) (t : TurnRow) (ids : Option (List Int)) (start : Db) : Prop where
  normal : ∃ input, Normal input r
  bound : r.scopeBound = true
  id : t.requestId = r.requestId
  task : t.taskId = r.taskId
  json : t.requestJson = encode r.toJson
  walked : scope r.taskId r.scope start = .ok ids
  linked : start.Linked
  numbered : start.Numbered

namespace Anchor

variable {r : Request} {t : TurnRow} {ids : Option (List Int)} {start : Db}

theorem positive (h : Anchor r t ids start) : 0 < t.taskId := by
  obtain ⟨input, normal⟩ := h.normal
  have := normal.task
  rw [h.task]
  omega

/-- The tasks captured are those of the scope. -/
theorem inside (h : Anchor r t ids start) (id : Int) :
    ids.all (·.contains id) = true ↔ InScope start r.taskId r.scope id := by
  obtain ⟨input, normal⟩ := h.normal
  exact scope_mem normal.scope h.walked id

theorem mine (h : Anchor r t ids start) : ids.all (·.contains t.taskId) = true := by
  obtain ⟨input, normal⟩ := h.normal
  rw [h.inside, h.task]
  exact InScope.self normal.scope

theorem zero (h : Anchor r t ids start) : ∀ l, ids = some l → (0 : Int) ∉ l := by
  rintro l rfl member
  refine zero_out_of_scope h.linked h.numbered (h.task ▸ h.positive) ?_
    ((h.inside 0).mp (by simpa using member))
  intro whole
  have walked := h.walked
  rw [whole] at walked
  simp [scope] at walked

/-- The stored request has the scope and the consistency of the turn's. -/
theorem stored (h : Anchor r t ids start) : (Request.ofJson t.requestJson).scope = r.scope ∧
    (Request.ofJson t.requestJson).scopeBound = true := by
  obtain ⟨input, normal⟩ := h.normal
  rw [h.json, Request.ofJson_encode]
  exact ⟨normal.decoded.1, normal.decoded.2.trans h.bound⟩

end Anchor

/-- Right after `Begin` nothing has happened. -/
theorem Begun.tracked {host : Host} {clk : Clock} {r : Request} {c : Counter} {row : TaskRow}
    {payload : Package} {basis : List BasisRow} {db start : Db}
    (h : Begun host clk r c row payload basis db start) (keys : JournalKeys db.toJournal)
    (normal : ∃ input, Normal input r) (bound : r.scopeBound = true) (linked : start.Linked)
    (numbered : start.Numbered) :
    ∃ ids, Anchor r (newTurn host clk r row.reopenedRevision payload) ids start ∧
      Tracked (newTurn host clk r row.reopenedRevision payload) (fun id => ids.all (·.contains id))
        (ids.getD [0]) start [] [] start := by
  have tables : start.toTables = (db.opened clk r row).toTables := by rw [h.after]
  have captured := h.captured.keys bound
  obtain ⟨ids, walked, watched⟩ := except_bind_ok.mp captured
  have basisOf : start.basisOf r.requestId = basis := by
    unfold Db.basisOf
    rw [congrArg Journal.turnBasis h.journal, List.filter_append]
    have old : db.turnBasis.filter (·.requestId == r.requestId) = [] := by
      rw [List.filter_eq_nil_iff]
      intro b member own
      obtain ⟨t, live, same⟩ := keys.basisTurn b member
      exact turn?_none h.unknown t live (same.trans (beq_iff_eq.mp own))
    have new : basis.filter (·.requestId == r.requestId) = basis :=
      List.filter_eq_self.mpr fun b member => beq_iff_eq.mpr (h.captured.own b member)
    rw [old, new]
    rfl
  refine ⟨ids, ⟨normal, bound, rfl, rfl, rfl, (scope_congr tables _ _).trans walked, linked,
    numbered⟩, ?_, ?_, ?_, ?_⟩
  · refine ⟨newTurn host clk r row.reopenedRevision payload, ?_, TurnRow.sameRecord_refl _⟩
    rw [h.after]
    exact List.mem_append_right _ (List.mem_singleton_self _)
  · rw [show (newTurn host clk r row.reopenedRevision payload).requestId = r.requestId from rfl,
      basisOf]
    exact (Except.ok.inj watched).symm
  · intro b member
    rw [show (newTurn host clk r row.reopenedRevision payload).requestId = r.requestId from rfl,
      basisOf] at member
    rw [weights, List.map_nil, List.sum_nil, Int.add_zero, ← h.captured.current b member, h.after]
    rfl
  · intro _
    unfold Slice.plus
    rw [List.append_nil]

/-- A tracked turn that is in the journal is fresh exactly when no foreign firing was in its
    scope. -/
theorem Tracked.fresh {r : Request} {t : TurnRow} {ids : Option (List Int)} {start db : Db}
    {foreign : List Touch} {results : List MessageRow} (anchor : Anchor r t ids start)
    (h : Tracked t (fun id => ids.all (·.contains id)) (ids.getD [0]) start foreign results db)
    (keys : JournalKeys db.toJournal)
    (named : ∀ x ∈ foreign, x.old.isSome ∨ x.new.isSome) :
    validateBasis t.requestId db = .ok () ↔
      ∀ x ∈ foreign, ∀ id, ids.all (·.contains id) = true → x.touches id = false := by
  obtain ⟨u, member, record⟩ := h.live
  have live : db.turn? t.requestId = some u := by
    rw [← record.1]
    exact keys.turns.find?_eq member
  have standing : (∀ b ∈ db.turnBasis, b.requestId = t.requestId →
      db.epoch? b.taskId = some b.epoch) ↔ ∀ key ∈ ids.getD [0], weights key foreign = 0 := by
    rw [← h.keys]
    constructor
    · intro current key member
      obtain ⟨b, own, rfl⟩ := List.mem_map.mp member
      obtain ⟨source, mine⟩ := List.mem_filter.mp own
      have := (h.clocks b own).symm.trans (current b source (beq_iff_eq.mp mine))
      simp only [Option.some.injEq] at this
      omega
    · intro still b source mine
      have own : b ∈ db.basisOf t.requestId :=
        List.mem_filter.mpr ⟨source, beq_iff_eq.mpr mine⟩
      rw [h.clocks b own, still b.taskId (List.mem_map.mpr ⟨b, own, rfl⟩), Int.add_zero]
  have nonempty : ∃ b ∈ db.turnBasis, b.requestId = t.requestId := by
    cases rows : db.basisOf t.requestId with
    | nil =>
      have watched := h.keys
      rw [rows] at watched
      cases ids with
      | none => cases watched
      | some l =>
        have empty : l = [] := watched.symm
        have mine := anchor.mine
        rw [empty] at mine
        cases mine
    | cons b rest =>
      have own : b ∈ db.basisOf t.requestId := by
        rw [rows]
        exact List.mem_cons_self
      obtain ⟨source, same⟩ := List.mem_filter.mp own
      exact ⟨b, source, beq_iff_eq.mp same⟩
  rw [validateBasis_ok, ← weights_watched named anchor.zero, ← standing]
  constructor
  · rintro ⟨v, found, fresh⟩
    rw [live] at found
    cases found
    rw [record.2.2.2.1] at fresh
    exact (fresh anchor.stored.2).2
  · intro current
    exact ⟨u, live, fun _ => ⟨nonempty, current⟩⟩

/-- A step that relies on the basis found the turn in the journal and fresh. -/
theorem Step.Relies.fresh {host : Host} {id : Text} {step : Step} {db : Db}
    (h : step.Relies host id db) : (db.turn? id).isSome ∧ validateBasis id db = .ok () := by
  have ran : ∀ {out : Response}, (step.exec host db).1 = .ok out →
      step.action.run host step.clk db = .ok (out, (step.exec host db).2) :=
    fun ok => atomic_ok.mp (Prod.ext ok rfl)
  rcases h with ⟨generation, callId, name, args, call, same, ok, created⟩ |
    ⟨generation, callId, payload, units, counting, same, unknown, ok⟩ |
    ⟨generation, reply, turn, same, ok, fresh⟩
  · have run := ran ok
    rw [same] at run
    obtain ⟨_, run, answer⟩ := responding_ok.mp run
    cases answer
    obtain ⟨_, _, t, live, _, _, ⟨old, _, _, answered, _⟩ | ⟨_, fresh, _⟩⟩ := startTool_ok run
    · rw [answered] at created
      cases created
    · exact ⟨by rw [live]; rfl, fresh⟩
  · have run := ran ok
    rw [same] at run
    obtain ⟨_, run, _⟩ := responding_ok.mp run
    obtain ⟨_, _, _, t, live, _, _, _, ⟨old, known, _⟩ | ⟨_, fresh, _⟩⟩ := recordModelRequest_ok run
    · rw [unknown] at known
      cases known
    · exact ⟨by rw [live]; rfl, fresh⟩
  · have run := ran ok
    rw [same] at run
    obtain ⟨_, run, answer⟩ := responding_ok.mp run
    cases answer
    obtain ⟨_, _, _, _, _, rfl, _⟩ | ⟨t, row, facts, snapshot, edges, committed⟩ := commit_ok run
    · cases fresh
    · exact ⟨by rw [committed.live]; rfl, committed.fresh⟩

/-- What runs after the `Begin` of a scoped turn leaves it tracked as long as it is in the journal. -/
theorem BegunScoped.tracked {host : Host} {before : List Step} {clk : Clock} {input r : Request}
    {custom : List CustomCounter} {out : Turn}
    (begun : BegunScoped host clk input r custom out (runSteps host .empty before)) {start : Db}
    (begins : start = Step.next host ⟨clk, .engine (.begin input custom)⟩
      (runSteps host .empty before)) (after : List Step) :
    ∃ c row payload basis ids,
      Begun host clk r c row payload basis (runSteps host .empty before) start ∧
      Anchor r (newTurn host clk r row.reopenedRevision payload) ids start ∧
      Tracked (newTurn host clk r row.reopenedRevision payload)
        (fun id => ids.all (·.contains id)) (ids.getD [0]) start [] [] start ∧
      (((runSteps host start after).turn? r.requestId).isSome →
        Tracked (newTurn host clk r row.reopenedRevision payload)
          (fun id => ids.all (·.contains id)) (ids.getD [0]) start
          (foreignTouches host r.requestId start after) (ownResults host r.requestId start after)
          (runSteps host start after)) := by
  have reachable : Reachable host (runSteps host .empty before) := ⟨before, rfl⟩
  obtain ⟨_, run, answer⟩ := responding_ok.mp (atomic_ok.mp (Prod.ext begun.begun rfl))
  cases answer
  obtain ⟨c, normal⟩ := begun.normal
  obtain ⟨r', c', normal', ⟨_, _, _, _, rfl, _⟩ | ⟨row, payload, basis, fact, rfl⟩⟩ := begin_ok run
  · cases begun.created
  rw [normal] at normal'
  cases normal'
  have opened : Begun host clk r c row payload basis (runSteps host .empty before) start := by
    rw [begins]
    exact fact
  have startReachable : Reachable host start := by
    rw [begins]
    exact ⟨before ++ [⟨clk, .engine (.begin input custom)⟩], by rw [runSteps_append]; rfl⟩
  obtain ⟨ids, anchor, tracked⟩ := opened.tracked reachable.keys ⟨input, normalizeRequest_ok normal⟩
    begun.bound startReachable.linked startReachable.numbered
  refine ⟨c, row, payload, basis, ids, opened, anchor, tracked, fun present => ?_⟩
  have later := @Tracked.run host _ _ _ _ _ _ _ anchor.positive.ne' anchor.mine after tracked
    startReachable.keys
  rw [List.append_nil, List.nil_append] at later
  rcases later with tracked | ⟨tomb, retired, same⟩
  · exact tracked
  · have keys := @runSteps_keys host after start startReachable.keys
    obtain ⟨u, found⟩ := Option.isSome_iff_exists.mp present
    exact absurd (same.trans (turn?_id found).symm) (keys.apart u (turn?_mem found) tomb retired)

/-- **Scope freshness.** Whatever runs after the `Begin` of a turn of consistency `scope`: as long as
    the turn is in the journal, it is fresh exactly when every row write in a task of its scope was
    a result of its own tools. And when a new call, a new model request or a commit of it succeeds,
    the rows of the scope are those right after `Begin` and these results. -/
theorem scope_freshness (host : Host) (before : List Step) {clk : Clock} {input r : Request}
    {custom : List CustomCounter} {out : Turn}
    (begun : BegunScoped host clk input r custom out (runSteps host .empty before)) {start : Db}
    (begins : start = Step.next host ⟨clk, .engine (.begin input custom)⟩
      (runSteps host .empty before)) (after : List Step) :
    (((runSteps host start after).turn? r.requestId).isSome →
      (validateBasis r.requestId (runSteps host start after) = .ok () ↔
        ∀ x ∈ foreignTouches host r.requestId start after,
          ∀ id, InScope start r.taskId r.scope id → x.touches id = false)) ∧
    ∀ step p, (∀ id, p id = true ↔ InScope start r.taskId r.scope id) →
      Step.Relies host r.requestId step (runSteps host start after) →
      (runSteps host start after).slice p =
        (start.slice p).plus (ownResults host r.requestId start after) := by
  obtain ⟨c, row, payload, basis, ids, opened, anchor, _, live⟩ := begun.tracked begins after
  have finalKeys : JournalKeys (runSteps host start after).toJournal := by
    refine runSteps_keys after ?_
    rw [begins]
    exact Step.keys _ (Reachable.keys ⟨before, rfl⟩)
  have named : ∀ x ∈ foreignTouches host r.requestId start after, x.old.isSome ∨ x.new.isSome :=
    fun x member => foreignTouches_named member
  constructor
  · intro present
    simp only [← anchor.inside]
    exact (live present).fresh anchor finalKeys named
  · intro step p same relies
    obtain ⟨present, fresh⟩ := relies.fresh
    have outside := ((live present).fresh anchor finalKeys named).mp fresh
    have p_eq : p = fun id => ids.all (·.contains id) := by
      funext id
      exact Bool.eq_iff_iff.mpr ((same id).trans (anchor.inside id).symm)
    rw [p_eq]
    exact (live present).rows fun x member => inside_eq_false.mpr (outside x member)

/-! ## A turn of the small store -/

def scopedRequest : Request := { plainRequest with consistency := Text.lit "scope" }

/-- The request as `Begin` stores it. -/
def scopedNormal : Request := { withDefaults scopedRequest with counting := Text.lit "free" }

def scopedTask : List Step := [plainStep (.createTask { title := Text.lit "t" })]

def scopedBegin : Step := plainStep (.begin scopedRequest [plainCounter])

theorem scopedBegun : ∃ out, BegunScoped plainHost plainClock scopedRequest scopedNormal
    [plainCounter] out (runSteps plainHost .empty scopedTask) := by
  obtain ⟨out, begun, created⟩ := exists_turn (p := Turn.created)
    (x := (Step.exec plainHost scopedBegin (runSteps plainHost .empty scopedTask)).1)
    (by decide +kernel)
  exact ⟨out, ⟨_, rfl⟩, by decide, begun, created⟩

/-- A call of the turn and its result. -/
def scopedCall : List Step :=
  [plainStep (.startTool (Text.lit "r") 1 (Text.lit "c") (Text.lit "n") .null),
    plainStep (.finishTool (Text.lit "r") 1 (Text.lit "c") .null [])]

/-- The turn is fresh after a result of its own tool. -/
theorem scope_freshness_own : validateBasis (Text.lit "r") (runSteps plainHost
    (scopedBegin.next plainHost (runSteps plainHost .empty scopedTask)) scopedCall) = .ok () := by
  obtain ⟨out, begun⟩ := scopedBegun
  have own : foreignTouches plainHost (Text.lit "r")
      (scopedBegin.next plainHost (runSteps plainHost .empty scopedTask)) scopedCall = [] := by
    decide +kernel
  refine ((scope_freshness plainHost scopedTask begun rfl scopedCall).1 ?_).mpr ?_
  · decide +kernel
  · intro x member
    rw [show scopedNormal.requestId = Text.lit "r" from rfl] at member
    rw [show Step.next plainHost ⟨plainClock, .engine (.begin scopedRequest [plainCounter])⟩ =
      scopedBegin.next plainHost from rfl, own] at member
    exact absurd member List.not_mem_nil

/-- The turn given up and retired. -/
def scopedRetire : List Step :=
  [plainStep (.abort (Text.lit "r") 1),
    plainStep (.applyRetention (some ⟨2000, 1, 1, 0, 0, 0, 0⟩) plainDigest.text)]

/-- A retired turn is not fresh, although nothing was written. -/
theorem scope_freshness_retired :
    (∃ out, BegunScoped plainHost plainClock scopedRequest scopedNormal [plainCounter] out
      (runSteps plainHost .empty scopedTask)) ∧
    foreignTouches plainHost (Text.lit "r")
      (scopedBegin.next plainHost (runSteps plainHost .empty scopedTask)) scopedRetire = [] ∧
    validateBasis (Text.lit "r") (runSteps plainHost
      (scopedBegin.next plainHost (runSteps plainHost .empty scopedTask)) scopedRetire) ≠ .ok () := by
  refine ⟨scopedBegun, by decide +kernel, ?_⟩
  intro fresh
  have : (validateBasis (Text.lit "r") (runSteps plainHost
    (scopedBegin.next plainHost (runSteps plainHost .empty scopedTask)) scopedRetire)).toBool =
      false := by decide +kernel
  rw [fresh] at this
  cases this

end Cmpath
