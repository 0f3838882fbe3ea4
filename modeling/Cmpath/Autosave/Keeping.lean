import Cmpath.Autosave.Capture
import Cmpath.Journal.Facts

/-!
# What a store keeps for autosave

Autosave works through `TaskMemory`, so its stores are among those the calls of the two writers lead
to (`Kept`). There the state of a task is its last `autosave_state` fact (`state_ok_iff`), and a call
that records no such fact leaves the state of a task and its messages alone (`Apart`).
-/

namespace Cmpath
open Lib Lib.Txn

/-- A store that calls of the two writers lead to. -/
def Kept (host : Host) (db : Db) : Prop := ∃ calls, db = runCalls host .empty calls

namespace Kept

variable {host : Host} {db db' : Db}

theorem empty : Kept host .empty := ⟨[], rfl⟩

theorem reachable (h : Kept host db) : Reachable host db := by
  obtain ⟨calls, rfl⟩ := h
  exact ⟨_, rfl⟩

theorem call (h : Kept host db) (c : Call) : Kept host ((callStep c).next host db) := by
  obtain ⟨calls, rfl⟩ := h
  refine ⟨calls ++ [c], ?_⟩
  unfold runCalls
  rw [List.map_append, runSteps_append]
  rfl

/-- A method of `TaskMemory` that succeeds. -/
theorem memory (h : Kept host db) {clk : Clock} {op : MemoryOp} {out : Response}
    (run : op.run host clk db = .ok (out, db')) : Kept host db' := by
  have exec : (callStep (clk, .inr op)).exec host db = (.ok out, db') := atomic_ok.mpr run
  have next := h.call (clk, .inr op)
  unfold Step.next at next
  rwa [exec] at next

theorem sequenced (h : Kept host db) : ∃ stored, Sequenced stored db := by
  obtain ⟨calls, rfl⟩ := h
  exact ⟨_, Sequenced.run calls Sequenced.empty Kept.empty.reachable⟩

/-- The facts of a task that is there are numbered in the order of their rows. -/
theorem numbered (h : Kept host db) {taskId : Int} (here : (db.task? taskId).isSome) (key : Text) :
    ∃ n, db.revisions (taskId, key) = upTo n := by
  obtain ⟨stored, ordered⟩ := h.sequenced
  exact ⟨_, ordered.numbered taskId key here⟩

/-- A task that comes with a call has a new identifier. -/
theorem born (h : Kept host db) (c : Call) {id : Int}
    (here : (((callStep c).next host db).task? id).isSome) :
    (db.task? id).isSome ∨ db.sequence.tasks < id := by
  obtain ⟨_, ordered⟩ := h.sequenced
  have keys := h.reachable.messageKeys
  unfold Step.next at here
  cases run : (callStep c).exec host db with
  | mk result db' =>
    rw [run] at here
    cases result with
    | error e =>
      rw [atomic_error run] at here
      exact .inl here
    | ok out =>
      have old : ∀ {places : List (Int × Text)}, FactStep places db db' →
          (db.task? id).isSome ∨ db.sequence.tasks < id := by
        intro places step
        by_cases given : id ≤ db.sequence.tasks
        · exact .inl (step.tasks id given here)
        · exact .inr (by omega)
      obtain ⟨clk, op | op⟩ := c
      · exact old (Op.factStep (atomic_ok.mp run))
      · rcases MemoryOp.factStep keys ordered.backed (atomic_ok.mp run) with step | ⟨_, _, gone⟩
        · exact old step
        · obtain ⟨row, found⟩ := Option.isSome_iff_exists.mp here
          have listed := List.mem_of_find?_eq_some found
          rw [gone.tasks] at listed
          refine .inl ?_
          unfold Db.task?
          rw [List.find?_isSome]
          exact ⟨row, (Table.mem_delete.mp listed).1, by simpa using task?_id found⟩

end Kept

namespace Autosave

/-- The value of the state fact, as `_state` finds it. -/
def stateValue (py : Python) (db : Db) (taskId : Int) : Json :=
  ((db.lastFact (taskId, stateKey)).map fun f => f.value.held py.floatRepr).getD .null

theorem stateKey_valid : stateKey.valid = true := Text.valid_lit _

theorem stateKey_strip : stateKey.strip = stateKey := by decide

/-- The state of a task is its last state fact. -/
theorem state_ok_iff {py : Python} {db : Db} (kept : Kept py.toHost db) {taskId : Int} {s : State} :
    state py (some taskId) db = .ok s ↔
      (db.task? taskId).isSome ∧ State.ofJson (stateValue py db taskId) = .ok s := by
  have read : ∀ fact, TaskMemory.fact py.toHost taskId stateKey none db = .ok fact ↔
      (db.task? taskId).isSome ∧
        fact = (db.lastFact (taskId, stateKey)).map (TaskMemory.factOf py.toHost) := by
    intro fact
    constructor
    · intro run
      unfold TaskMemory.fact at run
      obtain ⟨_, _, run⟩ := except_bind_ok.mp run
      obtain ⟨row, found, run⟩ := except_bind_ok.mp run
      obtain ⟨_, _, run⟩ := except_bind_ok.mp run
      have here : (db.task? taskId).isSome := by
        unfold TaskMemory.findTask at found
        obtain ⟨_, _, found⟩ := except_bind_ok.mp found
        cases known : db.task? taskId with
        | none =>
          rw [known] at found
          cases found
        | some r => rfl
      obtain ⟨n, numbered⟩ := kept.numbered here stateKey
      dsimp only at run
      rw [currentRow_last numbered] at run
      exact ⟨here, (Except.ok.inj run).symm⟩
    · rintro ⟨here, rfl⟩
      obtain ⟨n, numbered⟩ := kept.numbered here stateKey
      obtain ⟨row, found⟩ := findTask_of_row kept.reachable.numbered here
      unfold TaskMemory.fact
      refine except_bind_ok.mpr ⟨(), rfl, except_bind_ok.mpr ⟨row, found,
        except_bind_ok.mpr ⟨(), ?_, ?_⟩⟩⟩
      · rw [stateKey_valid]
        rfl
      · dsimp only
        rw [currentRow_last numbered]
  have value : ∀ f : Option FactRow,
      ((f.map (TaskMemory.factOf py.toHost)).map (·.value)).getD .null =
        (f.map fun f => f.value.held py.floatRepr).getD .null := by
    intro f
    cases f <;> rfl
  unfold state
  rw [except_bind_ok]
  constructor
  · rintro ⟨fact, found, parsed⟩
    obtain ⟨here, rfl⟩ := (read fact).mp found
    rw [value] at parsed
    exact ⟨here, parsed⟩
  · rintro ⟨here, parsed⟩
    refine ⟨_, (read _).mpr ⟨here, rfl⟩, ?_⟩
    rw [value]
    exact parsed

/-! ## What leaves a task alone -/

/-- A task that is there afterwards has the state it had, and the messages it had. -/
structure Apart (taskId : Int) (a b : Db) : Prop where
  state : (b.task? taskId).isSome →
    b.lastFact (taskId, stateKey) = a.lastFact (taskId, stateKey)
  rows : (b.task? taskId).isSome → ∀ m ∈ a.messages, m.taskId = taskId → m ∈ b.messages

namespace Apart

variable {taskId : Int} {a b c : Db}

theorem refl (db : Db) : Apart taskId db db := ⟨fun _ => rfl, fun _ _ member _ => member⟩

/-- Facts at other places only. -/
theorem of_factStep {places : List (Int × Text)} (s : FactStep places a b)
    (other : (taskId, stateKey) ∉ places) : Apart taskId a b := by
  refine ⟨fun _ => ?_, fun _ m member _ => s.messages.subset member⟩
  have same : ∀ {rows out : List FactRow} {places : List (Int × Text)},
      Versions.Recorded FactRow.place FactRow.revision rows places out →
        (taskId, stateKey) ∉ places →
          out.filter (fun f => f.place == (taskId, stateKey)) =
            rows.filter fun f => f.place == (taskId, stateKey) := by
    intro rows out places recorded other
    induction recorded with
    | done => rfl
    | row new _ _ ih =>
      rw [ih fun member => other (List.mem_cons_of_mem _ member), List.filter_append]
      have apart : (new.place == (taskId, stateKey)) = false := by
        rw [beq_eq_false_iff_ne]
        intro same
        exact other (same ▸ List.mem_cons_self)
      rw [List.filter_cons_of_neg (by simp [apart]), List.filter_nil, List.append_nil]
  unfold Db.lastFact
  rw [same s.recorded other]

/-- Another task is deleted. -/
theorem of_gone {gone : Int} (s : TaskGone gone a b) : Apart taskId a b := by
  have apart : (b.task? taskId).isSome → taskId ≠ gone := by
    intro here same
    obtain ⟨row, found⟩ := Option.isSome_iff_exists.mp here
    have listed := List.mem_of_find?_eq_some found
    rw [s.tasks] at listed
    have other := (Table.mem_delete.mp listed).2
    rw [task?_id found, same] at other
    simp at other
  refine ⟨fun here => ?_, fun here m member own => ?_⟩
  · unfold Db.lastFact
    rw [s.facts, Table.delete, List.filter_filter]
    congr 1
    refine List.filter_congr fun f _ => ?_
    by_cases mine : f.place = (taskId, stateKey)
    · have task : f.taskId = taskId := congrArg Prod.fst mine
      simp [task, apart here]
    · simp [mine]
  · rw [s.messages]
    refine Table.mem_delete.mpr ⟨member, ?_⟩
    rw [own, beq_eq_false_iff_ne]
    exact apart here

/-- A call that records no state fact of the task. -/
theorem of_call {host : Host} (kept : Kept host a) (call : Call)
    (other : ∀ g ∈ Call.gives host call a, g.stored ≠ (taskId, stateKey)) :
    Apart taskId a ((callStep call).next host a) := by
  obtain ⟨_, ordered⟩ := kept.sequenced
  have keys := kept.reachable.messageKeys
  unfold Call.gives at other
  unfold Step.next
  cases run : (callStep call).exec host a with
  | mk result db' =>
    rw [run] at other
    cases result with
    | error e =>
      rw [atomic_error run]
      exact refl a
    | ok out =>
      obtain ⟨clk, op | op⟩ := call
      · refine of_factStep (Op.factStep (atomic_ok.mp run)) fun member => ?_
        obtain ⟨g, given, same⟩ := List.mem_map.mp member
        exact other g given same
      · rcases MemoryOp.factStep keys ordered.backed (atomic_ok.mp run) with step | ⟨_, _, gone⟩
        · refine of_factStep step fun member => ?_
          obtain ⟨g, given, same⟩ := List.mem_map.mp member
          exact other g given same
        · exact of_gone gone

end Apart

end Autosave

end Cmpath
