import Cmpath.Journal.Change
import Cmpath.Memory.Resolve

/-!
# Two resolvers

What the engine and `TaskMemory` read in one query is a `Reading` each: the tasks it names, and
whether an explicit identifier is lost. The engine concludes from its reading; `TaskMemory` does so
too unless the query is `Divided`: one explicit identifier beside the title or an alias of another
task, where it picks the identifier.
-/

namespace Cmpath
open Lib Lib.Txn

/-! ## Readings -/

/-- What a resolver finds in a query: the tasks it names, and an explicit identifier of no task. -/
structure Reading where
  lost : Prop
  names : Int → Prop

/-- One task is named. -/
def Reading.Only (r : Reading) (id : Int) : Prop := ¬ r.lost ∧ ∀ other, r.names other ↔ other = id

/-- Several tasks are named. -/
def Reading.Several (r : Reading) : Prop :=
  ¬ r.lost ∧ ∃ a, r.names a ∧ ∃ b, r.names b ∧ a ≠ b

/-- Two readings call for one verdict: the same single task, several, or neither. -/
def Reading.Alike (a b : Reading) : Prop := (∀ id, a.Only id ↔ b.Only id) ∧ (a.Several ↔ b.Several)

/-- Readings that lose nothing and name the same tasks are alike. -/
theorem Reading.Alike.of_names {a b : Reading} (clearA : ¬ a.lost) (clearB : ¬ b.lost)
    (same : ∀ id, a.names id ↔ b.names id) : a.Alike b :=
  ⟨fun id => by simp only [Reading.Only, same, clearA, clearB],
    by simp only [Reading.Several, same, clearA, clearB]⟩

/-- The engine's reading: identifiers between ASCII word boundaries of the normal form, titles and
    aliases after normalisation. -/
def engineReading (host : Host) (nfkc : Text → Text) (query : Text) (db : Db) : Reading where
  lost := ∃ d ∈ explicitIds isAsciiWord (nfkc query), identifies db d = false
  names id := (∃ d ∈ explicitIds isAsciiWord (nfkc query), (decimal d : Int) = id) ∨
    id ∈ phraseMatches host query db

/-- The reading of `TaskMemory`: identifiers between Unicode word boundaries of the query itself,
    titles after normalisation, aliases as stored. -/
def memoryReading (host : Host) (query : Text) (db : Db) : Reading where
  lost := ∃ d ∈ explicitIds (TaskMemory.isWordRune host) query, db.task? (decimal d) = none
  names id := (∃ d ∈ explicitIds (TaskMemory.isWordRune host) query, (decimal d : Int) = id) ∨
    ∃ t ∈ db.tasks, t.id = id ∧ TaskMemory.speaks host query db t = true

/-- A resolver's status and task are what a reading calls for. -/
def Concludes (r : Resolution) (reading : Reading) : Prop :=
  (∀ id, r.status = .resolved ∧ r.taskId = some id ↔ reading.Only id) ∧
    (r.status = .ambiguous ↔ reading.Several) ∧ (r.status ≠ .resolved → r.taskId = none) ∧
      (r.status = .resolved → r.taskId.isSome)

/-- A list of candidates without repetitions concludes from what it contains. -/
theorem concludes_of_mem {found : List Int} {reading : Reading} (nodup : found.Nodup)
    (clear : ¬ reading.lost) (same : ∀ id, id ∈ found ↔ reading.names id) :
    Concludes (conclude found) reading := by
  refine ⟨fun id => ?_, ?_, conclude_task, fun resolved => ?_⟩
  · rw [conclude_resolved, singleton_iff nodup]
    simp only [same]
    exact ⟨fun only => ⟨clear, only⟩, fun ⟨_, only⟩ => only⟩
  · rw [conclude_ambiguous, several_iff nodup]
    simp only [same]
    exact ⟨fun ⟨a, ha, b, hb, ne⟩ => ⟨clear, a, ha, b, hb, ne⟩,
      fun ⟨_, a, ha, b, hb, ne⟩ => ⟨a, ha, b, hb, ne⟩⟩
  · unfold conclude at resolved ⊢
    split <;> simp_all

/-- A lost identifier concludes that nothing is found. -/
theorem concludes_of_lost {reading : Reading} {r : Resolution} (lost : reading.lost)
    (status : r.status = .notFound) (task : r.taskId = none) : Concludes r reading := by
  refine ⟨fun id => ?_, ?_, fun _ => task, fun resolved => ?_⟩
  · rw [status]
    exact ⟨fun ⟨resolved, _⟩ => (nomatch resolved), fun only => absurd lost only.1⟩
  · rw [status]
    exact ⟨fun ambiguous => (nomatch ambiguous), fun several => absurd lost several.1⟩
  · rw [status] at resolved
    cases resolved

/-- Readings that are alike conclude the same. -/
theorem agreed {x y : Reading} {a b : Resolution} (alike : x.Alike y) (first : Concludes a x)
    (second : Concludes b y) : a.status = b.status ∧ a.taskId = b.taskId := by
  by_cases resolved : a.status = .resolved
  · obtain ⟨id, task⟩ := Option.isSome_iff_exists.mp (first.2.2.2 resolved)
    obtain ⟨status, same⟩ :=
      (second.1 id).mpr ((alike.1 id).mp ((first.1 id).mp ⟨resolved, task⟩))
    exact ⟨resolved.trans status.symm, task.trans same.symm⟩
  · have other : b.status ≠ .resolved := by
      intro status
      obtain ⟨id, task⟩ := Option.isSome_iff_exists.mp (second.2.2.2 status)
      exact resolved ((first.1 id).mpr ((alike.1 id).mpr ((second.1 id).mp ⟨status, task⟩))).1
    refine ⟨?_, (first.2.2.1 resolved).trans (second.2.2.1 other).symm⟩
    have several : a.status = .ambiguous ↔ b.status = .ambiguous :=
      first.2.1.trans (alike.2.trans second.2.1.symm)
    cases hx : a.status with
    | resolved => exact absurd hx resolved
    | ambiguous => exact (several.mp hx).symm
    | notFound =>
      cases hy : b.status with
      | resolved => exact absurd hy other
      | ambiguous => exact absurd (hx.symm.trans (several.mpr hy)) (by decide)
      | notFound => rfl

/-! ## The engine -/

/-- The engine concludes from its reading of the query. -/
theorem resolve_concludes (host : Host) (nfkc : Text → Text) (query : Text) (db : Db) :
    ∃ r, resolve host nfkc query db = .ok r ∧ Concludes r (engineReading host nfkc query db) := by
  unfold resolve
  dsimp only
  by_cases all : (explicitIds isAsciiWord (nfkc query)).all (identifies db) = true
  · rw [if_pos all]
    refine ⟨_, rfl, concludes_of_mem ?_ ?_ fun id => ?_⟩
    · exact (List.perm_insertionSort _ _).nodup_iff.mpr (List.nodup_dedup _)
    · rintro ⟨d, member, lost⟩
      rw [List.all_eq_true.mp all d member] at lost
      cases lost
    · rw [(List.perm_insertionSort _ _).mem_iff, List.mem_dedup, List.mem_append, List.mem_map]
      rfl
  · rw [if_neg all]
    refine ⟨_, rfl, concludes_of_lost ?_ rfl rfl⟩
    rw [Bool.not_eq_true, List.all_eq_false] at all
    obtain ⟨d, member, lost⟩ := all
    exact ⟨d, member, Bool.eq_false_iff.mpr lost⟩

/-! ## TaskMemory -/

/-- A number too long for Python's `int`. -/
def Overlong (host : Host) (query : Text) : Prop :=
  ∃ d ∈ explicitIds (TaskMemory.isWordRune host) query, TaskMemory.maxStrDigits < d.length

/-- One known identifier, and the title or an alias of another task. -/
def Divided (host : Host) (query : Text) (db : Db) : Prop :=
  ∃ id : Int, (∃ d ∈ explicitIds (TaskMemory.isWordRune host) query, (decimal d : Int) = id) ∧
    (∀ d ∈ explicitIds (TaskMemory.isWordRune host) query, (decimal d : Int) = id) ∧
    (db.task? id).isSome ∧
    ∃ t ∈ db.tasks, t.id ≠ id ∧ TaskMemory.speaks host query db t = true

section Memory

variable {host : Host} {query : Text} {db : Db}

theorem explicitTaskIds_overlong (h : Overlong host query) :
    ∃ e, TaskMemory.explicitTaskIds host query = .error e := by
  obtain ⟨d, member, long⟩ := h
  have found : (explicitIds (TaskMemory.isWordRune host) query).any
      (fun d => decide (TaskMemory.maxStrDigits < d.length)) = true :=
    List.any_eq_true.mpr ⟨d, member, decide_eq_true long⟩
  unfold TaskMemory.explicitTaskIds
  dsimp only
  rw [if_pos found]
  exact ⟨_, rfl⟩

theorem explicitTaskIds_ok (h : ¬ Overlong host query) :
    TaskMemory.explicitTaskIds host query = .ok (TaskMemory.fromKeys
      ((explicitIds (TaskMemory.isWordRune host) query).map fun d => (decimal d : Int))) := by
  have none_ : (explicitIds (TaskMemory.isWordRune host) query).any
      (fun d => decide (TaskMemory.maxStrDigits < d.length)) = false := by
    rw [List.any_eq_false]
    intro d member long
    exact h ⟨d, member, of_decide_eq_true long⟩
  unfold TaskMemory.explicitTaskIds
  dsimp only
  rw [if_neg (by rw [none_]; decide)]

theorem task?_row {id : Int} {t : TaskRow} (member : t ∈ db.tasks) (same : t.id = id) :
    (db.task? id).isSome := by
  unfold Db.task?
  rw [List.find?_isSome]
  exact ⟨t, member, by simpa using same⟩

/-- `TaskMemory` picks the identifier of a divided query. -/
theorem memory_divided (short : ¬ Overlong host query) (h : Divided host query db) :
    ∃ r, TaskMemory.resolve host query db = .ok r ∧ r.status = .resolved := by
  obtain ⟨id, ⟨d, here, named⟩, all, known, _⟩ := h
  have single : TaskMemory.fromKeys
      ((explicitIds (TaskMemory.isWordRune host) query).map fun d => (decimal d : Int)) = [id] := by
    rw [singleton_iff (TaskMemory.nodup_fromKeys _)]
    intro other
    rw [TaskMemory.mem_fromKeys, List.mem_map]
    constructor
    · rintro ⟨e, member, rfl⟩
      exact all e member
    · rintro rfl
      exact ⟨d, here, named⟩
  have found : ([id].any fun id => (db.task? id).isNone) = false := by
    simpa using known
  unfold TaskMemory.resolve
  rw [explicitTaskIds_ok short, single]
  dsimp only [bind, Except.bind]
  rw [if_neg (by rw [found]; decide)]
  exact ⟨_, rfl, rfl⟩

/-- Otherwise `TaskMemory` concludes from its reading too. -/
theorem memory_concludes (keys : db.TaskKeys) (short : ¬ Overlong host query)
    (whole : ¬ Divided host query db) :
    ∃ r, TaskMemory.resolve host query db = .ok r ∧
      Concludes r.toResolution (memoryReading host query db) := by
  have run := explicitTaskIds_ok short
  generalize hfound : TaskMemory.fromKeys
    ((explicitIds (TaskMemory.isWordRune host) query).map fun d => (decimal d : Int)) = found at run
  have nodup : found.Nodup := hfound ▸ TaskMemory.nodup_fromKeys _
  have mem : ∀ id, id ∈ found ↔
      ∃ d ∈ explicitIds (TaskMemory.isWordRune host) query, (decimal d : Int) = id := by
    intro id
    rw [← hfound, TaskMemory.mem_fromKeys, List.mem_map]
  unfold TaskMemory.resolve
  rw [run]
  dsimp only [bind, Except.bind]
  by_cases lost : (found.any fun id => (db.task? id).isNone) = true
  · rw [if_pos lost]
    refine ⟨_, rfl, concludes_of_lost ?_ rfl rfl⟩
    obtain ⟨id, member, unknown⟩ := List.any_eq_true.mp lost
    obtain ⟨d, here, rfl⟩ := (mem id).mp member
    exact ⟨d, here, Option.isNone_iff_eq_none.mp unknown⟩
  rw [if_neg lost]
  refine ⟨_, rfl, ?_⟩
  have known : ∀ id ∈ found, (db.task? id).isSome := by
    intro id member
    by_contra unknown
    exact lost (List.any_eq_true.mpr ⟨id, member, by simpa using unknown⟩)
  have clear : ¬ (memoryReading host query db).lost := by
    rintro ⟨d, here, unknown⟩
    have present := known _ ((mem _).mpr ⟨d, here, rfl⟩)
    rw [unknown] at present
    cases present
  cases empty : found with
  | nil =>
    refine concludes_of_mem ?_ clear fun id => ?_
    · have sorted : (TaskMemory.tasks db).Perm db.tasks := List.perm_insertionSort _ _
      have each : ((TaskMemory.tasks db).map fun t : TaskRow => t.id).Nodup :=
        (sorted.map _).nodup_iff.mpr keys.keyed
      exact each.sublist (List.filter_sublist.map _)
    · have none_ : ∀ d ∈ explicitIds (TaskMemory.isWordRune host) query, (decimal d : Int) ≠ id := by
        intro d here same
        have := (mem id).mpr ⟨d, here, same⟩
        rw [empty] at this
        cases this
      have sorted : ∀ t, t ∈ TaskMemory.tasks db ↔ t ∈ db.tasks :=
        fun t => (List.perm_insertionSort _ _).mem_iff
      simp only [List.isEmpty_nil, if_true, List.mem_map, List.mem_filter, sorted]
      constructor
      · rintro ⟨t, ⟨member, speaks⟩, rfl⟩
        exact Or.inr ⟨t, member, rfl, speaks⟩
      · rintro (⟨d, here, same⟩ | ⟨t, member, same, speaks⟩)
        · exact absurd same (none_ d here)
        · exact ⟨t, ⟨member, speaks⟩, same⟩
  | cons a rest =>
    rw [← empty]
    have full : found.isEmpty = false := by rw [empty]; rfl
    simp only [full, Bool.false_eq_true, if_false]
    cases rest with
    | nil =>
      -- the only identifier: no phrase of another task comes with it
      refine concludes_of_mem nodup clear fun id => ?_
      constructor
      · exact fun member => Or.inl ((mem id).mp member)
      · rintro (here | ⟨t, member, same, speaks⟩)
        · exact (mem id).mpr here
        · by_contra other
          have each : ∀ d ∈ explicitIds (TaskMemory.isWordRune host) query, (decimal d : Int) = a := by
            intro d here
            have := (mem _).mpr ⟨d, here, rfl⟩
            rw [empty] at this
            exact List.mem_singleton.mp this
          have here : a ∈ found := empty ▸ List.mem_cons_self
          refine whole ⟨a, (mem a).mp here, each, known a here, t, member, ?_, speaks⟩
          rintro rfl
          exact other (same ▸ here)
    | cons b rest =>
      have several : ∃ a b rest, found = a :: b :: rest := ⟨a, b, rest, empty⟩
      obtain ⟨x, hx, y, hy, different⟩ := (several_iff nodup).mp several
      have ambiguous : (conclude found).status = .ambiguous := conclude_ambiguous.mpr several
      have named : ∀ id ∈ found, (memoryReading host query db).names id :=
        fun id member => Or.inl ((mem id).mp member)
      refine ⟨fun id => ?_, ?_, conclude_task, fun resolved => ?_⟩
      · constructor
        · rintro ⟨resolved, _⟩
          exact absurd (ambiguous.symm.trans resolved) (by decide)
        · rintro ⟨_, only⟩
          exact absurd (((only x).mp (named x hx)).trans ((only y).mp (named y hy)).symm) different
      · exact ⟨fun _ => ⟨clear, x, named x hx, y, named y hy, different⟩, fun _ => ambiguous⟩
      · exact absurd (ambiguous.symm.trans resolved) (by decide)

end Memory

/-! ## Agreement -/

/-- The resolvers agree, neither picks one of two tasks that are named, in whatever reading, and
    neither resolves a query with a lost identifier. -/
structure ResolversAgree (host : Host) (nfkc : Text → Text) (query : Text) (db : Db) : Prop where
  agree : ∃ a b, resolve host nfkc query db = .ok a ∧ TaskMemory.resolve host query db = .ok b ∧
    a.status = b.status ∧ a.taskId = b.taskId
  neutral : ∀ t u, t ≠ u → (db.task? t).isSome → (db.task? u).isSome →
    ((engineReading host nfkc query db).names t ∨ (memoryReading host query db).names t) →
    ((engineReading host nfkc query db).names u ∨ (memoryReading host query db).names u) →
    (∀ a, resolve host nfkc query db = .ok a → a.status ≠ .resolved) ∧
      ∀ b, TaskMemory.resolve host query db = .ok b → b.status ≠ .resolved
  strict : (engineReading host nfkc query db).lost ∨ (memoryReading host query db).lost →
    (∀ a, resolve host nfkc query db = .ok a → a.status ≠ .resolved) ∧
      ∀ b, TaskMemory.resolve host query db = .ok b → b.status ≠ .resolved

/-- **Two resolvers, one verdict.** They agree and never pick exactly when no number is too long for
    Python, the query does not put one identifier beside the name of another task, and the two
    readings of it call for the same verdict. -/
theorem resolvers_exact {host : Host} {db : Db} (reachable : Reachable host db)
    (nfkc : Text → Text) (query : Text) :
    ResolversAgree host nfkc query db ↔
      ¬ Overlong host query ∧ ¬ Divided host query db ∧
        (engineReading host nfkc query db).Alike (memoryReading host query db) := by
  obtain ⟨a, engine, concluded⟩ := resolve_concludes host nfkc query db
  constructor
  · intro law
    have short : ¬ Overlong host query := by
      intro long
      obtain ⟨e, failed⟩ := explicitTaskIds_overlong long
      obtain ⟨_, b, _, memory, _⟩ := law.agree
      unfold TaskMemory.resolve at memory
      rw [failed] at memory
      cases memory
    have whole : ¬ Divided host query db := by
      intro divided
      obtain ⟨b, memory, resolved⟩ := memory_divided short divided
      obtain ⟨id, here, _, known, t, member, other, speaks⟩ := divided
      exact (law.neutral id t.id (Ne.symm other) known (task?_row member rfl) (Or.inr (Or.inl here))
        (Or.inr (Or.inr ⟨t, member, rfl, speaks⟩))).2 b memory resolved
    refine ⟨short, whole, ?_⟩
    obtain ⟨b, memory, conclusion⟩ := memory_concludes reachable.taskKeys short whole
    obtain ⟨a', b', sameA, sameB, status, task⟩ := law.agree
    rw [engine] at sameA
    rw [memory] at sameB
    cases sameA
    cases sameB
    refine ⟨fun id => ?_, ?_⟩
    · rw [← concluded.1 id, ← conclusion.1 id, status, task]
    · rw [← concluded.2.1, ← conclusion.2.1, status]
  · rintro ⟨short, whole, single, several⟩
    obtain ⟨b, memory, conclusion⟩ := memory_concludes reachable.taskKeys short whole
    -- a resolved task is the only one either reading names
    have only : ∀ {r : Resolution} {reading : Reading}, Concludes r reading → r.status = .resolved →
        (∀ id, reading.Only id ↔ (engineReading host nfkc query db).Only id) →
        ∃ id, (engineReading host nfkc query db).Only id ∧ (memoryReading host query db).Only id := by
      intro r reading concludes resolved same
      obtain ⟨id, task⟩ := Option.isSome_iff_exists.mp (concludes.2.2.2 resolved)
      have picked := (same id).mp ((concludes.1 id).mp ⟨resolved, task⟩)
      exact ⟨id, picked, (single id).mp picked⟩
    have clash : (∃ id, (engineReading host nfkc query db).Only id ∧
        (memoryReading host query db).Only id) → ∀ t u, t ≠ u →
        ((engineReading host nfkc query db).names t ∨ (memoryReading host query db).names t) →
        ((engineReading host nfkc query db).names u ∨ (memoryReading host query db).names u) →
        False := by
      rintro ⟨id, first, second⟩ t u different namesT namesU
      have isT : t = id := namesT.elim (first.2 t).mp (second.2 t).mp
      have isU : u = id := namesU.elim (first.2 u).mp (second.2 u).mp
      exact different (isT.trans isU.symm)
    have engineSide : a.status = .resolved → ∃ id, (engineReading host nfkc query db).Only id ∧
        (memoryReading host query db).Only id :=
      fun resolved => only concluded resolved fun _ => Iff.rfl
    have memorySide : b.status = .resolved → ∃ id, (engineReading host nfkc query db).Only id ∧
        (memoryReading host query db).Only id :=
      fun resolved => only conclusion resolved fun id => (single id).symm
    refine ⟨⟨a, b, engine, memory, agreed ⟨single, several⟩ concluded conclusion⟩, ?_, ?_⟩
    · intro t u different _ _ namesT namesU
      constructor
      · intro a' same resolved
        cases engine.symm.trans same
        exact clash (engineSide resolved) t u different namesT namesU
      · intro b' same resolved
        cases memory.symm.trans same
        exact clash (memorySide resolved) t u different namesT namesU
    · intro lost
      constructor
      · intro a' same resolved
        cases engine.symm.trans same
        obtain ⟨id, first, second⟩ := engineSide resolved
        exact lost.elim first.1 second.1
      · intro b' same resolved
        cases memory.symm.trans same
        obtain ⟨id, first, second⟩ := memorySide resolved
        exact lost.elim first.1 second.1

/-! ## A divided query -/

/-- What case folding and the letters and numbers of Unicode are on ASCII. -/
def asciiHost : Host :=
  let lower (t : Text) : Text := t.map fun | .char c => .char c.toLower | .stray b => .stray b
  let alphanumeric : Rune → Bool := fun | .char c => c.isAlphanum | .stray _ => false
  { plainHost with
    foldNFKC := lower, isWord := alphanumeric, casefoldNFKC := lower, isAlnum := alphanumeric }

/-- Two tasks. -/
def namedDb : Db :=
  runSteps asciiHost .empty [engineStep (plainClock, .createTask { title := Text.lit "alpha" }),
    engineStep (plainClock, .createTask { title := Text.lit "beta" })]

/-- A title alone is read alike. -/
theorem resolvers_title : ResolversAgree asciiHost id (Text.lit "the beta") namedDb := by
  have noAscii : explicitIds isAsciiWord (Text.lit "the beta") = [] := by decide +kernel
  have noUnicode : explicitIds (TaskMemory.isWordRune asciiHost) (Text.lit "the beta") = [] := by
    decide +kernel
  have found : phraseMatches asciiHost (Text.lit "the beta") namedDb = [2] := by decide +kernel
  have spoken : (namedDb.tasks.filter
      (TaskMemory.speaks asciiHost (Text.lit "the beta") namedDb)).map (fun t => t.id) = [2] := by
    decide +kernel
  have same : ∀ task : Int, (engineReading asciiHost id (Text.lit "the beta") namedDb).names task ↔
      (memoryReading asciiHost (Text.lit "the beta") namedDb).names task := by
    intro task
    have phrases : task ∈ phraseMatches asciiHost (Text.lit "the beta") namedDb ↔
        task ∈ (namedDb.tasks.filter
          (TaskMemory.speaks asciiHost (Text.lit "the beta") namedDb)).map (fun t => t.id) := by
      rw [found, spoken]
    rw [List.mem_map] at phrases
    simp only [engineReading, memoryReading, id, noAscii, noUnicode, List.not_mem_nil, false_and,
      exists_false, false_or, phrases, List.mem_filter]
    exact ⟨fun ⟨t, ⟨member, speaks⟩, at_⟩ => ⟨t, member, at_, speaks⟩,
      fun ⟨t, member, at_, speaks⟩ => ⟨t, ⟨member, speaks⟩, at_⟩⟩
  have clear : ¬ (engineReading asciiHost id (Text.lit "the beta") namedDb).lost ∧
      ¬ (memoryReading asciiHost (Text.lit "the beta") namedDb).lost := by
    simp [engineReading, memoryReading, noAscii, noUnicode]
  have reachable : Reachable asciiHost namedDb := ⟨_, rfl⟩
  refine (resolvers_exact reachable id (Text.lit "the beta")).mpr ⟨?_, ?_, ?_⟩
  · simp [Overlong, noUnicode]
  · simp [Divided, noUnicode]
  · exact .of_names clear.1 clear.2 same

/-- An identifier beside the title of another task: the engine does not choose, `TaskMemory`
    does. -/
theorem resolvers_divided :
    (resolve asciiHost id (Text.lit "T1 beta") namedDb).toOption =
        some { status := .ambiguous, candidates := [1, 2] } ∧
      (TaskMemory.resolve asciiHost (Text.lit "T1 beta") namedDb).toOption.map
        (fun r => (r.status, r.taskId)) = some (.resolved, some 1) ∧
      ¬ ResolversAgree asciiHost id (Text.lit "T1 beta") namedDb := by
  have engine : (resolve asciiHost id (Text.lit "T1 beta") namedDb).toOption =
      some { status := .ambiguous, candidates := [1, 2] } := by decide +kernel
  have memory : (TaskMemory.resolve asciiHost (Text.lit "T1 beta") namedDb).toOption.map
      (fun r => (r.status, r.taskId)) = some (.resolved, some 1) := by decide +kernel
  refine ⟨engine, memory, fun ⟨⟨a, b, first, second, status, _⟩, _, _⟩ => ?_⟩
  rw [first] at engine
  rw [second] at memory
  simp only [Except.toOption, Option.map_some, Option.some.injEq, Prod.mk.injEq] at engine memory
  rw [engine, memory.1] at status
  cases status

end Cmpath
