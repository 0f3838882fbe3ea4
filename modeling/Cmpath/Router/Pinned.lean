import Cmpath.Router.Memory
import Cmpath.Router.WorkingSet

/-!
# The pinned route

What `MemoryRouter.retrieve` packs of the pins of a router: tasks in the order of their pins, with
facts whose sources are in the package and evidence that is cited in order.
-/

namespace Cmpath
open Lib Lib.Txn

namespace Router
open TaskMemory (check_ok cite citation_inj currentFacts)

/-! ## Pins of a router -/

/-- A router that calls on pins lead to, each over a store of its time. -/
inductive MemoryRouter.Reached (config : RouterConfig) : MemoryRouter → Prop where
  | fresh : Reached config { config := config }
  | pin {router next : MemoryRouter} {taskId : Int} {ids : List Int} {db : Db}
      (before : Reached config router) (accepted : memoryPin router taskId ids db = .ok next) :
      Reached config next
  | unpin {router next : MemoryRouter} {taskId : Int} {answer : Bool}
      (before : Reached config router) (done : memoryUnpin router taskId = .ok (answer, next)) :
      Reached config next
  | clear {router : MemoryRouter} (before : Reached config router) :
      Reached config (memoryClearPins router)

/-- A router has no more pins than its configuration allows. -/
structure MemoryRouter.Capped (config : RouterConfig) (router : MemoryRouter) : Prop where
  same : router.config = config
  few : (router.pins.entries.length : Int) ≤ config.maxPinnedTasks

theorem memoryPin_capped {config : RouterConfig} {router next : MemoryRouter} {taskId : Int}
    {ids : List Int} {db : Db} (capped : router.Capped config)
    (h : memoryPin router taskId ids db = .ok next) : next.Capped config := by
  obtain ⟨_, _, h⟩ := except_bind_ok.mp h
  obtain ⟨_, _, h⟩ := except_bind_ok.mp h
  obtain ⟨_, _, h⟩ := except_bind_ok.mp h
  cases h
  refine ⟨capped.same, ?_⟩
  have few := capped.few
  have positive := config.positive.1
  rw [capped.same]
  by_cases known : taskId ∈ router.pins.keys
  · have there : router.pins.keys.contains taskId = true := by simpa using known
    rw [there, Bool.not_true, Bool.false_and, if_neg Bool.false_ne_true,
      OrderedDict.length_set_of_mem known]
    exact few
  · have away : router.pins.keys.contains taskId = false := by simpa using known
    rw [away, Bool.not_false, Bool.true_and]
    by_cases full : config.maxPinnedTasks ≤ router.pins.entries.length
    · rw [if_pos (by simpa using full)]
      have := OrderedDict.length_set_le router.pins.popFirst taskId (TaskMemory.fromKeys ids)
      have popped : router.pins.popFirst.entries.length = router.pins.entries.length - 1 :=
        List.length_tail
      show ((router.pins.popFirst.set taskId (TaskMemory.fromKeys ids)).entries.length : Int) ≤ _
      omega
    · rw [if_neg (by simpa using full)]
      have := OrderedDict.length_set_le router.pins taskId (TaskMemory.fromKeys ids)
      show ((router.pins.set taskId (TaskMemory.fromKeys ids)).entries.length : Int) ≤ _
      omega

theorem MemoryRouter.Reached.capped {config : RouterConfig} {router : MemoryRouter}
    (h : router.Reached config) : router.Capped config := by
  have positive := config.positive.1
  induction h with
  | fresh => exact ⟨rfl, by simp [OrderedDict.empty]; omega⟩
  | pin _ accepted ih => exact memoryPin_capped ih accepted
  | @unpin router _ taskId _ _ done ih =>
    obtain ⟨_, _, done⟩ := except_bind_ok.mp done
    cases done
    have shorter : (router.pins.erase taskId).entries.length ≤ router.pins.entries.length :=
      List.length_filter_le _ _
    have few := ih.few
    exact ⟨ih.same, by show ((router.pins.erase taskId).entries.length : Int) ≤ _; omega⟩
  | clear _ ih => exact ⟨ih.same, by simp [memoryClearPins, OrderedDict.empty]; omega⟩

/-! ## Packing the pins -/

/-- The evidence of the packed pins, in order. -/
def PinnedSet.rows (s : PinnedSet) : List MessageRow := s.pinned.flatMap (·.evidence)

section Pack

variable {host : Host} {config : RouterConfig} {p : Prompt} {input : Option Json} {db : Db}

/-- A packed pin: its task is one of the store, and it keeps the limits. -/
structure PinnedItem.Sound (host : Host) (db : Db) (config : RouterConfig) (t : PinnedItem) :
    Prop where
  known : ∃ row, db.task? t.taskId = some row ∧ t.title = row.title ∧
    t.snapshot = row.snapshot.held host.floatRepr
  evidence : (t.evidence.length : Int) ≤ config.maxPinnedEvidence

/-- The pins packed so far: what is cited, shown and selected is their evidence, each message once,
    and every fact has its source among it. -/
structure PinnedSet.Sound (host : Host) (db : Db) (config : RouterConfig) (s : PinnedSet) :
    Prop where
  items : ∀ t ∈ s.pinned, t.Sound host db config
  cited : s.citations = s.rows.map cite
  shown : s.shown = s.citations
  once : (s.rows.map (·.id)).Nodup
  selected : ∀ id, id ∈ s.selected ↔ ∃ m ∈ s.rows, m.id = id
  stored : ∀ m ∈ s.rows, db.message? m.id = some m
  sourced : ∀ t ∈ s.pinned, ∀ f ∈ t.facts, ∃ m ∈ s.rows, m.id = f.evidenceId

/-- The pin in hand counts its evidence. -/
structure PinInHand.Sound (host : Host) (db : Db) (config : RouterConfig) (s : PinInHand) :
    Prop where
  all : s.set.Sound host db config
  counted : s.admitted = s.item.evidence.length

theorem PinInHand.rows (s : PinInHand) : s.set.rows = s.before.rows ++ s.item.evidence := by
  unfold PinnedSet.rows PinInHand.set
  rw [List.flatMap_append, List.flatMap_singleton]

theorem knownMessage_ok {id : Int} {m : MessageRow} (h : knownMessage id db = .ok (some m)) :
    db.message? id = some m ∧ m.id = id := by
  unfold knownMessage TaskMemory.message at h
  cases positive : decide (1 ≤ id) with
  | false =>
    rw [positive] at h
    cases h
  | true =>
    rw [positive] at h
    cases found : db.message? id with
    | none =>
      rw [found] at h
      cases h
    | some row =>
      rw [found] at h
      cases h
      exact ⟨rfl, message?_id found⟩

/-- Nothing but the count of what is left out changes. -/
theorem PinInHand.Sound.omit {s : PinInHand} (h : s.Sound host db config) :
    s.omit.Sound host db config :=
  ⟨⟨h.all.items, h.all.cited, h.all.shown, h.all.once, h.all.selected, h.all.stored, h.all.sourced⟩,
    h.counted⟩

/-- What was put and is taken back leaves no trace. -/
theorem PinInHand.undo_put (s : PinInHand) (m : MessageRow) : (s.put m).undo = s := by
  unfold PinInHand.put PinInHand.undo
  simp

/-- A new message is put at the end and admitted. -/
theorem PinInHand.Sound.accept {s : PinInHand} {m : MessageRow} (h : s.Sound host db config)
    (new : m.id ∉ s.before.selected) (room : s.admitted < config.maxPinnedEvidence)
    (stored : db.message? m.id = some m) : ((s.put m).accept m).Sound host db config := by
  have rows : ((s.put m).accept m).set.rows = s.set.rows ++ [m] := by
    rw [PinInHand.rows, PinInHand.rows, List.append_assoc]
    rfl
  have counted := h.counted
  refine ⟨⟨fun t member => ?_, ?_, ?_, ?_, fun id => ?_, fun x member => ?_,
    fun t member f fact => ?_⟩, ?_⟩
  · rcases List.mem_append.mp member with old | last
    · exact h.all.items t (List.mem_append_left _ old)
    · have mine := h.all.items s.item (List.mem_append_right _ (List.mem_singleton_self _))
      rw [List.mem_singleton.mp last]
      refine ⟨mine.known, ?_⟩
      show ((s.item.evidence ++ [m]).length : Int) ≤ _
      rw [List.length_append, List.length_singleton]
      omega
  · rw [rows, List.map_append, ← h.all.cited]
    rfl
  · show s.before.shown ++ [citation m.taskId m.id] = s.before.citations ++ [citation m.taskId m.id]
    rw [show s.before.shown = s.before.citations from h.all.shown]
  · rw [rows, List.map_append]
    refine List.nodup_append.mpr ⟨h.all.once, List.nodup_singleton _, fun a old b last same => ?_⟩
    obtain ⟨x, member, rfl⟩ := List.mem_map.mp old
    rw [List.mem_singleton.mp last] at same
    exact new ((h.all.selected m.id).mpr ⟨x, member, same⟩)
  · rw [rows]
    show id ∈ m.id :: s.before.selected ↔ _
    rw [List.mem_cons, show id ∈ s.before.selected ↔ _ from h.all.selected id]
    constructor
    · rintro (rfl | ⟨x, member, same⟩)
      · exact ⟨m, List.mem_append_right _ (List.mem_singleton_self _), rfl⟩
      · exact ⟨x, List.mem_append_left _ member, same⟩
    · rintro ⟨x, member, same⟩
      rcases List.mem_append.mp member with old | last
      · exact .inr ⟨x, old, same⟩
      · rw [List.mem_singleton.mp last] at same
        exact .inl same.symm
  · rw [rows] at member
    rcases List.mem_append.mp member with old | last
    · exact h.all.stored x old
    · rw [List.mem_singleton.mp last]
      exact stored
  · rw [rows]
    have source : ∃ x ∈ s.set.rows, x.id = f.evidenceId := by
      rcases List.mem_append.mp member with old | last
      · exact h.all.sourced t (List.mem_append_left _ old) f fact
      · rw [List.mem_singleton.mp last] at fact
        exact h.all.sourced s.item (List.mem_append_right _ (List.mem_singleton_self _)) f fact
    obtain ⟨x, member', same⟩ := source
    exact ⟨x, List.mem_append_left _ member', same⟩
  · show s.admitted + 1 = ((s.item.evidence ++ [m]).length : Int)
    rw [List.length_append, List.length_singleton]
    omega

/-- The pin in hand with one more fact. -/
def PinInHand.withFact (s : PinInHand) (f : TaskMemory.Fact) : PinInHand :=
  { s with item := { s.item with facts := s.item.facts ++ [f] } }

/-- A fact whose source is there is put at the end. -/
theorem PinInHand.Sound.withFact {s : PinInHand} {f : TaskMemory.Fact}
    (h : s.Sound host db config) (source : ∃ m ∈ s.set.rows, m.id = f.evidenceId) :
    (s.withFact f).Sound host db config := by
  have rows : (s.withFact f).set.rows = s.set.rows := by
    rw [PinInHand.rows, PinInHand.rows]
    rfl
  refine ⟨⟨fun t member => ?_, by rw [rows]; exact h.all.cited, h.all.shown,
    by rw [rows]; exact h.all.once, by rw [rows]; exact h.all.selected,
    by rw [rows]; exact h.all.stored, fun t member g fact => ?_⟩, h.counted⟩
  · rcases List.mem_append.mp member with old | last
    · exact h.all.items t (List.mem_append_left _ old)
    · have mine := h.all.items s.item (List.mem_append_right _ (List.mem_singleton_self _))
      rw [List.mem_singleton.mp last]
      exact ⟨mine.known, mine.evidence⟩
  · rw [rows]
    rcases List.mem_append.mp member with old | last
    · exact h.all.sourced t (List.mem_append_left _ old) g fact
    · rw [List.mem_singleton.mp last] at fact
      rcases List.mem_append.mp fact with fact | fact
      · exact h.all.sourced s.item (List.mem_append_right _ (List.mem_singleton_self _)) g fact
      · rw [List.mem_singleton.mp fact]
        exact source

/-- One fact: it is left out, it is put with its source in the package, or both are put. -/
theorem pinFact_ok {s next : PinInHand} {f : TaskMemory.Fact} (sound : s.Sound host db config)
    (h : pinFact host config p input s f db = .ok next) :
    next.Sound host db config ∧ next.before.pinned = s.before.pinned ∧
      next.item.taskId = s.item.taskId ∧
      (next.item.facts = s.item.facts ∨ next.item.facts = s.item.facts ++ [f]) := by
  obtain ⟨source, known, h⟩ := except_bind_ok.mp h
  cases source with
  | none =>
    cases h
    exact ⟨sound.omit, rfl, rfl, .inl rfl⟩
  | some m =>
    obtain ⟨stored, same⟩ := knownMessage_ok known
    by_cases chosen : m.id ∈ s.before.selected
    · have old : (!s.before.selected.contains m.id) = false := by simpa using chosen
      dsimp only at h
      rw [old] at h
      simp only [Bool.false_and, Bool.false_eq_true, if_false] at h
      obtain ⟨fits, _, h⟩ := except_bind_ok.mp h
      cases fits with
      | true =>
        cases h
        obtain ⟨x, member, its⟩ := (sound.all.selected m.id).mp chosen
        exact ⟨sound.withFact ⟨x, member, its.trans same⟩, rfl, rfl, .inr rfl⟩
      | false =>
        cases h
        simp only [List.dropLast_concat]
        exact ⟨sound.omit, rfl, rfl, .inl rfl⟩
    · have new : (!s.before.selected.contains m.id) = true := by simpa using chosen
      dsimp only at h
      rw [new] at h
      simp only [Bool.true_and, decide_eq_true_eq, if_true] at h
      by_cases full : config.maxPinnedEvidence ≤ s.admitted
      · rw [if_pos full] at h
        cases h
        exact ⟨sound.omit, rfl, rfl, .inl rfl⟩
      · rw [if_neg full] at h
        obtain ⟨fits, _, h⟩ := except_bind_ok.mp h
        cases fits with
        | true =>
          cases h
          have put := sound.accept chosen (by omega) (same ▸ stored)
          have source : ∃ x ∈ ((s.put m).accept m).set.rows, x.id = f.evidenceId := by
            rw [PinInHand.rows]
            exact ⟨m, List.mem_append_right _ (List.mem_append_right _ (List.mem_singleton_self m)),
              same⟩
          exact ⟨put.withFact source, rfl, rfl, .inr rfl⟩
        | false =>
          cases h
          simp only [PinInHand.put, PinInHand.undo, List.dropLast_concat]
          exact ⟨sound.omit, rfl, rfl, .inl rfl⟩

/-- The facts of a pin, one after the other. -/
theorem pinFacts_ok {facts : List TaskMemory.Fact} {s done : PinInHand}
    (sound : s.Sound host db config) (h : pinFacts host config p input s facts db = .ok done) :
    done.Sound host db config ∧ done.before.pinned = s.before.pinned ∧
      done.item.taskId = s.item.taskId ∧ done.item.facts.Sublist (s.item.facts ++ facts) := by
  induction facts generalizing s with
  | nil =>
    cases h
    exact ⟨sound, rfl, rfl, by rw [List.append_nil]⟩
  | cons f rest ih =>
    obtain ⟨next, first, later⟩ := except_bind_ok.mp h
    obtain ⟨sound', pinned, task, put⟩ := pinFact_ok sound first
    obtain ⟨last, pinned', task', order⟩ := ih sound' later
    refine ⟨last, pinned'.trans pinned, task'.trans task, ?_⟩
    rcases put with same | more
    · rw [same] at order
      exact order.trans ((List.Sublist.refl _).append (List.sublist_cons_self _ _))
    · rw [more, List.append_assoc] at order
      exact order

/-- One evidence item: it is left out, or put at the end. -/
theorem pinEvidence_ok {s next : PinInHand} {evidenceId : Int} (sound : s.Sound host db config)
    (h : pinEvidence host config p input s evidenceId db = .ok next) :
    next.Sound host db config ∧ next.before.pinned = s.before.pinned ∧
      next.item.taskId = s.item.taskId ∧ next.item.facts = s.item.facts := by
  obtain ⟨source, known, h⟩ := except_bind_ok.mp h
  cases source with
  | none =>
    cases h
    exact ⟨sound.omit, rfl, rfl, rfl⟩
  | some m =>
    obtain ⟨stored, same⟩ := knownMessage_ok known
    dsimp only at h
    by_cases chosen : m.id ∈ s.before.selected
    · rw [if_pos (by simpa using chosen)] at h
      cases h
      exact ⟨sound, rfl, rfl, rfl⟩
    · rw [if_neg (by simpa using chosen)] at h
      by_cases full : config.maxPinnedEvidence ≤ s.admitted
      · rw [if_pos full] at h
        cases h
        exact ⟨sound.omit, rfl, rfl, rfl⟩
      · rw [if_neg full] at h
        obtain ⟨fits, _, h⟩ := except_bind_ok.mp h
        cases h
        cases fits with
        | true => exact ⟨sound.accept chosen (by omega) (same ▸ stored), rfl, rfl, rfl⟩
        | false =>
          rw [if_neg Bool.false_ne_true, PinInHand.undo_put]
          exact ⟨sound.omit, rfl, rfl, rfl⟩

/-- The pinned evidence, one after the other. -/
theorem pinEvidences_ok {ids : List Int} {s done : PinInHand} (sound : s.Sound host db config)
    (h : pinEvidences host config p input s ids db = .ok done) :
    done.Sound host db config ∧ done.before.pinned = s.before.pinned ∧
      done.item.taskId = s.item.taskId ∧ done.item.facts = s.item.facts := by
  induction ids generalizing s with
  | nil =>
    cases h
    exact ⟨sound, rfl, rfl, rfl⟩
  | cons id rest ih =>
    obtain ⟨next, first, later⟩ := except_bind_ok.mp h
    obtain ⟨sound', pinned, task, facts⟩ := pinEvidence_ok sound first
    obtain ⟨last, pinned', task', facts'⟩ := ih sound' later
    exact ⟨last, pinned'.trans pinned, task'.trans task, facts'.trans facts⟩

/-- The facts of a packed pin are current ones of its task, in their order, up to the limit. -/
def PinnedItem.Current (host : Host) (db : Db) (config : RouterConfig) (t : PinnedItem) : Prop :=
  ∃ facts, currentFacts host t.taskId db = .ok facts ∧
    t.facts.Sublist (facts.take config.maxPinnedFacts.toNat)

/-- One pin: its task is packed at the end, or left out. -/
theorem packPin_ok {s next : PinnedSet} {pin : Int × List Int} (sound : s.Sound host db config)
    (current : ∀ t ∈ s.pinned, t.Current host db config)
    (h : packPin host config p input s pin db = .ok next) :
    next.Sound host db config ∧ (∀ t ∈ next.pinned, t.Current host db config) ∧
      (next.pinned.map (·.taskId) = s.pinned.map (·.taskId) ∨
        next.pinned.map (·.taskId) = s.pinned.map (·.taskId) ++ [pin.1]) := by
  have left : ∀ n, PinnedSet.Sound host db config { s with omitted := n } := fun _ =>
    ⟨sound.items, sound.cited, sound.shown, sound.once, sound.selected, sound.stored, sound.sourced⟩
  obtain ⟨known, found, run⟩ := except_bind_ok.mp h
  cases known with
  | none =>
    cases run
    exact ⟨left _, current, .inl rfl⟩
  | some task =>
    have here := knownTask_ok found
    have id : task.id = pin.1 := task?_id here
    obtain ⟨fits, _, run⟩ := except_bind_ok.mp run
    cases fits with
    | false =>
      cases run
      exact ⟨left _, current, .inl rfl⟩
    | true =>
      obtain ⟨facts, listed, run⟩ := except_bind_ok.mp run
      obtain ⟨withFacts, first, run⟩ := except_bind_ok.mp run
      obtain ⟨done, second, run⟩ := except_bind_ok.mp run
      cases run
      have start : PinInHand.Sound host db config
          { before := s, item := { taskId := task.id, title := task.title
                                   snapshot := task.snapshot.held host.floatRepr } } := by
        have rows : ∀ item : PinnedItem, item.evidence = [] →
            (PinInHand.set { before := s, item := item }).rows = s.rows := fun item none_ => by
          rw [PinInHand.rows, none_, List.append_nil]
        refine ⟨⟨fun t member => ?_, by rw [rows _ rfl]; exact sound.cited, sound.shown,
          by rw [rows _ rfl]; exact sound.once, by rw [rows _ rfl]; exact sound.selected,
          by rw [rows _ rfl]; exact sound.stored, fun t member f fact => ?_⟩, rfl⟩
        · rcases List.mem_append.mp member with old | last
          · exact sound.items t old
          · rw [List.mem_singleton.mp last]
            exact ⟨⟨task, by rw [id]; exact here, rfl, rfl⟩, config.positive.2.1⟩
        · rw [rows _ rfl]
          rcases List.mem_append.mp member with old | last
          · exact sound.sourced t old f fact
          · rw [List.mem_singleton.mp last] at fact
            exact absurd fact List.not_mem_nil
      obtain ⟨sound', pinned, named, order⟩ := pinFacts_ok start first
      obtain ⟨sound'', pinned', named', same⟩ := pinEvidences_ok sound' second
      have before : done.before.pinned = s.pinned := pinned'.trans pinned
      have taskId : done.item.taskId = task.id := named'.trans named
      have all := sound''.all
      have rows : (PinInHand.set { done with item := { done.item with trimmed := true } }).rows =
          done.set.rows := by
        rw [PinInHand.rows, PinInHand.rows]
      refine ⟨⟨fun t member => ?_, by rw [rows]; exact all.cited, all.shown,
        by rw [rows]; exact all.once, by rw [rows]; exact all.selected,
        by rw [rows]; exact all.stored, fun t member f fact => ?_⟩, fun t member => ?_, .inr ?_⟩
      · rcases List.mem_append.mp member with old | last
        · exact all.items t (List.mem_append_left _ old)
        · have mine := all.items done.item (List.mem_append_right _ (List.mem_singleton_self _))
          rw [List.mem_singleton.mp last]
          exact ⟨mine.known, mine.evidence⟩
      · rw [rows]
        rcases List.mem_append.mp member with old | last
        · exact all.sourced t (List.mem_append_left _ old) f fact
        · rw [List.mem_singleton.mp last] at fact
          exact all.sourced done.item (List.mem_append_right _ (List.mem_singleton_self _)) f fact
      · rcases List.mem_append.mp member with old | last
        · exact current t (before ▸ old)
        · rw [List.mem_singleton.mp last]
          refine ⟨facts, ?_, ?_⟩
          · show currentFacts host done.item.taskId db = _
            rw [taskId]
            exact listed
          · show done.item.facts.Sublist _
            rw [same]
            exact order
      · show (done.before.pinned ++ [_]).map PinnedItem.taskId = _
        rw [List.map_append, before, List.map_singleton, taskId, id]

/-- The pins, one after the other: those that are packed keep their order. -/
theorem packPins_ok {pins : List (Int × List Int)} {s done : PinnedSet}
    (sound : s.Sound host db config) (current : ∀ t ∈ s.pinned, t.Current host db config)
    (h : packPins host config p input s pins db = .ok done) :
    done.Sound host db config ∧ (∀ t ∈ done.pinned, t.Current host db config) ∧
      (done.pinned.map (·.taskId)).Sublist (s.pinned.map (·.taskId) ++ pins.map Prod.fst) := by
  induction pins generalizing s with
  | nil =>
    cases h
    exact ⟨sound, current, by rw [List.map_nil, List.append_nil]⟩
  | cons pin rest ih =>
    obtain ⟨next, first, later⟩ := except_bind_ok.mp h
    obtain ⟨sound', current', named⟩ := packPin_ok sound current first
    obtain ⟨last, currents, order⟩ := ih sound' current' later
    refine ⟨last, currents, order.trans ?_⟩
    rcases named with same | more
    · rw [same]
      exact (List.Sublist.refl _).append (List.sublist_cons_self _ _)
    · rw [more, List.append_assoc]
      exact List.Sublist.refl _

end Pack

/-! ## Pinned packages -/

/-- A package of pins: tasks that are pinned and exist, within the limits; every fact has its source
    in it, and its evidence is what it cites, in order and once. -/
structure OfPins (host : Host) (db : Db) (router : MemoryRouter) (p : Prompt) (input : Option Json)
    (context : RoutedContext) (s : PinnedSet) : Prop where
  payload : Carries p (s.payload host input) context
  shown : s.shown = context.citations
  citations : context.citations = s.rows.map cite
  once : context.citations.Nodup
  tasks : (s.pinned.map (·.taskId)).Sublist router.pins.keys
  few : (s.pinned.length : Int) ≤ router.config.maxPinnedTasks
  known : ∀ t ∈ s.pinned, ∃ row, db.task? t.taskId = some row ∧ t.title = row.title ∧
    t.snapshot = row.snapshot.held host.floatRepr
  stored : ∀ m ∈ s.rows, db.message? m.id = some m
  evidence : ∀ t ∈ s.pinned, (t.evidence.length : Int) ≤ router.config.maxPinnedEvidence
  facts : ∀ t ∈ s.pinned, (t.facts.length : Int) ≤ router.config.maxPinnedFacts ∧
    t.Current host db router.config
  sourced : ∀ t ∈ s.pinned, ∀ f ∈ t.facts, ∃ m ∈ s.rows, m.id = f.evidenceId

section Package

variable {host : Host} {router : MemoryRouter} {db : Db}

theorem memoryPinnedContext_ok {p : Prompt} {input : Option Json} {d : RouteDecision}
    {context : RoutedContext} (few : (router.pins.entries.length : Int) ≤ router.config.maxPinnedTasks)
    (h : memoryPinnedContext host p input router d db = .ok context) :
    ∃ s, OfPins host db router p input context s := by
  obtain ⟨_, _, h⟩ := except_bind_ok.mp h
  obtain ⟨_, _, h⟩ := except_bind_ok.mp h
  obtain ⟨s, packed, h⟩ := except_bind_ok.mp h
  obtain ⟨ms, messages, h⟩ := except_bind_ok.mp h
  obtain ⟨used, counted, h⟩ := except_bind_ok.mp h
  obtain ⟨_, within, h⟩ := except_bind_ok.mp h
  obtain ⟨text, spelled, h⟩ := except_bind_ok.mp h
  cases h
  have nothing : ∀ {α : Type} {P : α → Prop}, ∀ a ∈ ([] : List α), P a :=
    fun _ member => absurd member List.not_mem_nil
  have start : PinnedSet.Sound host db router.config {} :=
    ⟨nothing, rfl, rfl, List.nodup_nil, fun id => by simp [PinnedSet.rows], nothing, nothing⟩
  obtain ⟨sound, current, order⟩ := packPins_ok start nothing packed
  have cited : s.citations.Nodup := by
    rw [sound.cited]
    have once := sound.once
    rw [List.Nodup, List.pairwise_map] at once ⊢
    exact once.imp fun apart equal => apart (citation_inj equal)
  refine ⟨s, ⟨⟨ms, messages, spelled⟩, counted, by simpa using check_ok.mp within⟩, sound.shown,
    sound.cited, cited, order, ?_, fun t member => (sound.items t member).known, sound.stored,
    fun t member => (sound.items t member).evidence, fun t member => ⟨?_, current t member⟩,
    sound.sourced⟩
  · have shorter := order.length_le
    rw [List.map_nil, List.nil_append, List.length_map, List.length_map] at shorter
    omega
  · obtain ⟨facts, _, part⟩ := current t member
    have shorter := part.length_le
    have positive := router.config.positive.2.2.1
    rw [List.length_take] at shorter
    omega

/-- A pinned answer is a package of the pins. -/
theorem memoryRetrieve_pinned {c : RouteCall} {context : RoutedContext}
    (few : (router.pins.entries.length : Int) ≤ router.config.maxPinnedTasks)
    (h : memoryRetrieve host router c db = .ok context) (route : context.route = .pinned) :
    ∃ input s, pinnedCopy c.pinnedInput = .ok input ∧
      OfPins host db router (c.counted router.config) input context s := by
  obtain ⟨input, copied, h⟩ := except_bind_ok.mp h
  obtain ⟨_, _, h⟩ := except_bind_ok.mp h
  obtain ⟨d, _, h⟩ := except_bind_ok.mp h
  unfold retrieveRouted at h
  by_cases none_ : d.route = .none
  · rw [if_pos none_] at h
    obtain ⟨_, _, empty⟩ := except_bind_ok.mp h
    have same := (emptyContext_ok empty).1
    rw [same] at route
    exact absurd (route.symm.trans none_) (by decide)
  rw [if_neg none_] at h
  by_cases pinned : d.route = .pinned
  · rw [if_pos pinned] at h
    obtain ⟨s, package⟩ := memoryPinnedContext_ok few h
    exact ⟨input, s, copied, package⟩
  rw [if_neg pinned] at h
  have other : context.route = d.route := by
    cases task : d.taskId with
    | none =>
      rw [task] at h
      obtain ⟨_, _, empty⟩ := except_bind_ok.mp h
      exact (emptyContext_ok empty).1
    | some taskId =>
      rw [task] at h
      obtain ⟨_, _, h⟩ := except_bind_ok.mp h
      cases h
      rfl
  exact absurd (other.symm.trans route) pinned

end Package

/-- **Pinned packages are bounded and cited.** For every store, pins a router came to, call and
    counter, a pinned answer is a package of the router's pins. -/
theorem pinned_packing {config : RouterConfig} {router : MemoryRouter}
    (pinned : router.Reached config) (host : Host) (db : Db) {c : RouteCall}
    {context : RoutedContext} (answer : memoryRetrieve host router c db = .ok context)
    (route : context.route = .pinned) :
    ∃ input s, pinnedCopy c.pinnedInput = .ok input ∧
      OfPins host db router (c.counted router.config) input context s :=
  memoryRetrieve_pinned (pinned.capped.same ▸ pinned.capped.few) answer route

/-- A router with the message of the first task pinned. -/
def smallRouter : MemoryRouter := { pins := OrderedDict.empty.set 1 [1] }

def pinnedCall : RouteCall :=
  { ask := { query := Text.lit "q", requestedRoute := some (Text.lit "pinned") } }

theorem pinned_packing_small :
    ∃ context, memoryRetrieve plainHost smallRouter pinnedCall TaskMemory.smallStore = .ok context ∧
      context.citations = [Text.lit "T1:M1"] ∧
      ∃ input s, pinnedCopy pinnedCall.pinnedInput = .ok input ∧
        OfPins plainHost TaskMemory.smallStore smallRouter (pinnedCall.counted smallRouter.config)
          input context s := by
  obtain ⟨context, run⟩ := exists_ok
    (x := memoryRetrieve plainHost smallRouter pinnedCall TaskMemory.smallStore) (by decide +kernel)
  have answered : (memoryRetrieve plainHost smallRouter pinnedCall
      TaskMemory.smallStore).toOption.map (fun context => (context.citations, context.route)) =
      some ([Text.lit "T1:M1"], .pinned) := by decide +kernel
  rw [run] at answered
  have both := Option.some.inj answered
  have accepted : smallRouter.Reached {} :=
    .pin .fresh (show memoryPin {} 1 [1] TaskMemory.smallStore = .ok smallRouter by rfl)
  exact ⟨context, run, congrArg Prod.fst both,
    pinned_packing accepted plainHost TaskMemory.smallStore run (congrArg Prod.snd both)⟩

end Router

end Cmpath
