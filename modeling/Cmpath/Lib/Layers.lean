import Cmpath.Lib.Txn
import Mathlib.Data.Fintype.Card
import Mathlib.Data.Fintype.Sets
import Mathlib.Data.Fintype.EquivFin
import Mathlib.Data.List.Nodup
import Mathlib.Logic.Relation

/-!
# A worklist in layers

Nodes with needs, taken layer by layer: of what is left everything whose needs have been taken is
taken at once, in a given order, until nothing is left or nothing can be taken. What is taken is
what is grounded (`mem_order_iff`), each node after its needs (`order_met`); everything is taken
exactly where no need is missing and there is no cycle (`grounded_iff_acyclic`). A loop that works
on the nodes as it takes them does its work in this order (`run_ok`).
-/

namespace Lib

namespace Txn

/-! ## Work on a list of nodes -/

variable {α σ ε τ : Type} {body : τ → α → Txn σ ε τ} {t t' : τ} {s s' : σ}

theorem foldlM_cons_ok {x : α} {xs : List α} : (x :: xs).foldlM body t s = .ok (t', s') ↔
    ∃ t₁ s₁, body t x s = .ok (t₁, s₁) ∧ xs.foldlM body t₁ s₁ = .ok (t', s') := by
  rw [List.foldlM_cons, bind_ok]

theorem foldlM_append_ok {xs ys : List α} : (xs ++ ys).foldlM body t s = .ok (t', s') ↔
    ∃ t₁ s₁, xs.foldlM body t s = .ok (t₁, s₁) ∧ ys.foldlM body t₁ s₁ = .ok (t', s') := by
  induction xs generalizing t s with
  | nil =>
    rw [List.nil_append, List.foldlM_nil]
    constructor
    · exact fun run => ⟨t, s, rfl, run⟩
    · rintro ⟨_, _, same, run⟩
      obtain ⟨rfl, rfl⟩ := pure_ok.mp same
      exact run
  | cons x xs ih =>
    simp only [List.cons_append, foldlM_cons_ok, ih]
    constructor
    · rintro ⟨t₁, s₁, first, t₂, s₂, more, rest⟩
      exact ⟨t₂, s₂, ⟨t₁, s₁, first, more⟩, rest⟩
    · rintro ⟨t₂, s₂, ⟨t₁, s₁, first, more⟩, rest⟩
      exact ⟨t₁, s₁, first, t₂, s₂, more, rest⟩

/-- What has been taken, where each node is new. -/
theorem foldlM_taken {taken : τ → List α} {xs : List α}
    (tracks : ∀ t x s t' s', x ∉ taken t → body t x s = .ok (t', s') → taken t' = taken t ++ [x])
    (new : (taken t ++ xs).Nodup) (run : xs.foldlM body t s = .ok (t', s')) :
    taken t' = taken t ++ xs := by
  induction xs generalizing t s with
  | nil =>
    obtain ⟨rfl, _⟩ := pure_ok.mp run
    rw [List.append_nil]
  | cons x xs ih =>
    obtain ⟨t₁, s₁, first, rest⟩ := foldlM_cons_ok.mp run
    have fresh : x ∉ taken t := fun old => (List.nodup_append'.mp new).2.2 old List.mem_cons_self
    have now := tracks _ _ _ _ _ fresh first
    rw [← List.singleton_append, ← List.append_assoc, ← now] at new
    rw [ih new rest, now, List.append_assoc, List.singleton_append]

end Txn

namespace Layers

variable {α : Type} [DecidableEq α] (le : α → α → Bool) (needs : α → List α)

/-- The next layer: what of `left` has all its needs in `taken`. -/
def layer (taken left : List α) : List α := left.filter fun x => (needs x).all taken.contains

/-- What is left after a layer. -/
def without (left gone : List α) : List α := left.filter fun x => !gone.contains x

/-- The order in which the nodes are taken, in at most `n` layers. -/
def order : Nat → List α → List α → List α
  | 0, _, _ => []
  | n + 1, taken, left =>
      let next := (layer needs taken left).mergeSort le
      next ++ order n (taken ++ next) (without left next)

/-- A node that can be taken after `taken`: each need has been taken or can be. -/
inductive Grounded (taken left : List α) : α → Prop where
  | intro {x : α} (member : x ∈ left) (met : ∀ y ∈ needs x, y ∉ taken → Grounded taken left y) :
      Grounded taken left x

variable {le needs} {taken left : List α} {n : Nat} {x : α}

theorem mem_layer : x ∈ layer needs taken left ↔ x ∈ left ∧ ∀ y ∈ needs x, y ∈ taken := by
  simp [layer]

theorem mem_without {gone : List α} : x ∈ without left gone ↔ x ∈ left ∧ x ∉ gone := by
  simp [without]

theorem mem_next : x ∈ (layer needs taken left).mergeSort le ↔ x ∈ layer needs taken left :=
  List.mem_mergeSort

theorem order_subset (member : x ∈ order le needs n taken left) : x ∈ left := by
  induction n generalizing taken left with
  | zero => simp [order] at member
  | succ n ih =>
    rcases List.mem_append.mp member with first | later
    · exact (mem_layer.mp (mem_next.mp first)).1
    · exact (mem_without.mp (ih later)).1

theorem order_nodup (nodup : left.Nodup) : (order le needs n taken left).Nodup := by
  induction n generalizing taken left with
  | zero => exact List.nodup_nil
  | succ n ih =>
    refine List.nodup_append'.mpr ⟨?_, ih (nodup.filter _), ?_⟩
    · exact (List.mergeSort_perm _ _).nodup_iff.mpr (nodup.filter _)
    · intro x first later
      exact (mem_without.mp (order_subset later)).2 first

/-- Each node is taken after its needs. -/
theorem order_met {before after : List α}
    (split : order le needs n taken left = before ++ x :: after) :
    ∀ y ∈ needs x, y ∈ taken ++ before := by
  induction n generalizing taken left before with
  | zero => simp [order] at split
  | succ n ih =>
    intro y need
    rcases List.append_eq_append_iff.mp split with ⟨more, rfl, rest⟩ | ⟨more, first, rest⟩
    · -- past the first layer
      have := ih rest y need
      simpa [List.append_assoc] using this
    · cases more with
      | nil =>
        have later : order le needs n (taken ++ (layer needs taken left).mergeSort le)
            (without left ((layer needs taken left).mergeSort le)) = [] ++ x :: after := rest.symm
        have := ih later y need
        simpa [first] using this
      | cons z more =>
        -- in the first layer
        obtain ⟨rfl, _⟩ := List.cons.inj rest
        have here : x ∈ (layer needs taken left).mergeSort le := by
          rw [first]
          exact List.mem_append_right _ List.mem_cons_self
        exact List.mem_append_left _ ((mem_layer.mp (mem_next.mp here)).2 y need)

omit [DecidableEq α] in
theorem Grounded.mem (h : Grounded needs taken left x) : x ∈ left := by
  cases h with
  | intro member _ => exact member

/-- What a layer grounds was grounded before it. -/
theorem Grounded.earlier
    (h : Grounded needs (taken ++ (layer needs taken left).mergeSort le)
      (without left ((layer needs taken left).mergeSort le)) x) :
    Grounded needs taken left x := by
  induction h with
  | intro member met ih =>
    refine .intro (mem_without.mp member).1 fun y need fresh => ?_
    by_cases first : y ∈ (layer needs taken left).mergeSort le
    · have now := mem_layer.mp (mem_next.mp first)
      exact .intro now.1 fun z below unmet => absurd (now.2 z below) unmet
    · refine ih y need ?_
      rw [List.mem_append, not_or]
      exact ⟨fresh, first⟩

theorem order_of_stuck (stuck : layer needs taken left = []) : order le needs n taken left = [] := by
  induction n with
  | zero => rfl
  | succ n ih =>
    have same : without left [] = left := by simp [without]
    simp only [order, stuck, List.mergeSort_nil, List.append_nil, List.nil_append, same]
    exact ih

variable (le) in
/-- A layer leaves less. -/
theorem length_without (some : layer needs taken left ≠ []) :
    (without left ((layer needs taken left).mergeSort le)).length < left.length := by
  obtain ⟨x, first⟩ := List.exists_mem_of_ne_nil _ some
  have member := (mem_layer.mp first).1
  refine List.length_filter_lt_length_iff_exists.mpr ⟨x, member, ?_⟩
  simp only [List.contains_eq_mem, List.mem_mergeSort, decide_eq_true first, Bool.not_true,
    Bool.false_eq_true, not_false_eq_true]

/-- A node whose needs are all taken is taken. -/
theorem order_closed (fuel : left.length ≤ n) (member : x ∈ left)
    (met : ∀ y ∈ needs x, y ∉ taken → y ∈ order le needs n taken left) :
    x ∈ order le needs n taken left := by
  induction n generalizing taken left with
  | zero =>
    have empty : left = [] := List.length_eq_zero_iff.mp (Nat.le_zero.mp fuel)
    rw [empty] at member
    exact absurd member List.not_mem_nil
  | succ n ih =>
    by_cases stuck : layer needs taken left = []
    · -- nothing is ever taken, so the needs were met before
      have now : x ∈ layer needs taken left := by
        refine mem_layer.mpr ⟨member, fun y need => ?_⟩
        by_contra fresh
        have := met y need fresh
        rw [order_of_stuck stuck] at this
        exact absurd this List.not_mem_nil
      rw [stuck] at now
      exact absurd now List.not_mem_nil
    · rw [order, List.mem_append]
      by_cases first : x ∈ (layer needs taken left).mergeSort le
      · exact .inl first
      · right
        have shorter := length_without le stuck
        refine ih (by omega) (mem_without.mpr ⟨member, first⟩) fun y need fresh => ?_
        rw [List.mem_append, not_or] at fresh
        rcases List.mem_append.mp (met y need fresh.1) with now | later
        · exact absurd now fresh.2
        · exact later

/-- What is taken is what is grounded. -/
theorem mem_order_iff (fuel : left.length ≤ n) :
    x ∈ order le needs n taken left ↔ Grounded needs taken left x := by
  constructor
  · clear fuel
    intro member
    induction n generalizing taken left with
    | zero => simp [order] at member
    | succ n ih =>
      rcases List.mem_append.mp member with first | later
      · have now := mem_layer.mp (mem_next.mp first)
        exact .intro now.1 fun y need unmet => absurd (now.2 y need) unmet
      · exact (ih later).earlier
  · intro grounded
    induction grounded with
    | intro member met ih => exact order_closed fuel member ih

/-! ## Cycles -/

variable (needs left) in
/-- `y` is needed by a node of `left`. -/
def Needed (y x : α) : Prop := x ∈ left ∧ y ∈ needs x

omit [DecidableEq α] in
theorem irrefl_of_acc {r : α → α → Prop} (h : Acc r x) : ¬ r x x := by
  induction h with
  | intro x _ ih => exact fun self => ih x self self

omit [DecidableEq α] in
theorem Grounded.acc (h : Grounded needs [] left x) : Acc (Needed needs left) x := by
  induction h with
  | intro _ _ ih => exact .intro _ fun y edge => ih y edge.2 List.not_mem_nil

/-- A relation on the nodes that has no cycle is well founded. -/
theorem wellFounded_of_acyclic (acyclic : ∀ x, ¬ Relation.TransGen (Needed needs left) x x) :
    WellFounded fun a b : { x // x ∈ left } => Needed needs left a.1 b.1 := by
  let r := fun a b : { x // x ∈ left } => Needed needs left a.1 b.1
  have lift {a b : { x // x ∈ left }} (path : Relation.TransGen r a b) :
      Relation.TransGen (Needed needs left) a.1 b.1 :=
    Relation.TransGen.lift Subtype.val (fun _ _ edge => edge) _ _ path
  have : IsTrans { x // x ∈ left } (Relation.TransGen r) := ⟨fun _ _ _ => Relation.TransGen.trans⟩
  have : Std.Irrefl (Relation.TransGen r) := ⟨fun a cycle => acyclic a.1 (lift cycle)⟩
  have paths : WellFounded (Relation.TransGen r) := Finite.wellFounded_of_trans_of_irrefl _
  exact Subrelation.wf (q := r) (fun edge => Relation.TransGen.single edge) paths

/-- Everything can be taken exactly where no need is missing and there is no cycle. -/
theorem grounded_iff_acyclic : (∀ x ∈ left, Grounded needs [] left x) ↔
    (∀ x ∈ left, ∀ y ∈ needs x, y ∈ left) ∧
      ∀ x, ¬ Relation.TransGen (Needed needs left) x x := by
  constructor
  · intro all
    refine ⟨fun x member y need => ?_, fun x cycle => ?_⟩
    · cases all x member with
      | intro _ met => exact (met y need List.not_mem_nil).mem
    · have here : x ∈ left := by
        obtain ⟨_, _, edge⟩ := Relation.TransGen.tail'_iff.mp cycle
        exact edge.1
      exact irrefl_of_acc (all x here).acc.transGen cycle
  · rintro ⟨closed, acyclic⟩ x member
    suffices every : ∀ a : { x // x ∈ left }, Grounded needs [] left a.1 from every ⟨x, member⟩
    intro a
    induction a using (wellFounded_of_acyclic acyclic).induction with
    | _ a ih =>
      exact .intro a.2 fun y need _ => ih ⟨y, closed a.1 a.2 y need⟩ ⟨a.2, need⟩

/-! ## Working in layers -/

section Run

variable {σ ε τ : Type}

/-- Take what is left in layers and work on each node; fail when nothing can be taken. What has been
    taken is read off the value the work hands on. -/
def run (le : α → α → Bool) (needs : α → List α) (taken : τ → List α) (body : τ → α → Txn σ ε τ)
    (stuck : ε) : Nat → τ → List α → Txn σ ε τ
  | 0, t, left => if left = [] then pure t else Txn.fail stuck
  | n + 1, t, left =>
      if left = [] then pure t
      else if layer needs (taken t) left = [] then Txn.fail stuck
      else do
        let next := (layer needs (taken t) left).mergeSort le
        let t ← next.foldlM body t
        run le needs taken body stuck n t (without left next)

variable {taken : τ → List α} {body : τ → α → Txn σ ε τ} {stuck : ε} {t t' : τ} {s s' : σ}

variable (le needs) in
/-- A layer and what it leaves are new where everything left is. -/
theorem nodup_layer (taken : List α) {done : List α} (new : (done ++ left).Nodup) :
    (done ++ (layer needs taken left).mergeSort le ++
      without left ((layer needs taken left).mergeSort le)).Nodup := by
  obtain ⟨first, second, apart⟩ := List.nodup_append'.mp new
  have sorted : ((layer needs taken left).mergeSort le).Nodup :=
    (List.mergeSort_perm _ _).nodup_iff.mpr (second.filter _)
  rw [List.append_assoc]
  refine List.nodup_append'.mpr ⟨first, List.nodup_append'.mpr ⟨sorted, second.filter _, ?_⟩, ?_⟩
  · exact fun x now later => (mem_without.mp later).2 now
  · intro x old member
    rcases List.mem_append.mp member with now | later
    · exact apart old (mem_layer.mp (mem_next.mp now)).1
    · exact apart old (mem_without.mp later).1

/-- The loop succeeds exactly where everything can be taken and the work succeeds in this order. -/
theorem run_ok
    (tracks : ∀ t x s t' s', x ∉ taken t → body t x s = .ok (t', s') → taken t' = taken t ++ [x])
    (new : (taken t ++ left).Nodup) (fuel : left.length ≤ n) :
    run le needs taken body stuck n t left s = .ok (t', s') ↔
      (∀ x ∈ left, x ∈ order le needs n (taken t) left) ∧
        (order le needs n (taken t) left).foldlM body t s = .ok (t', s') := by
  induction n generalizing t s left with
  | zero =>
    have empty : left = [] := List.length_eq_zero_iff.mp (Nat.le_zero.mp fuel)
    subst empty
    simp [run, order]
  | succ n ih =>
    by_cases empty : left = []
    · subst empty
      have none_ : order le needs (n + 1) (taken t) [] = [] := order_of_stuck rfl
      rw [run, if_pos rfl, none_]
      simp
    by_cases halted : layer needs (taken t) left = []
    · rw [run, if_neg empty, if_pos halted, order_of_stuck halted]
      constructor
      · exact fun failed => (Txn.fail_ok.mp failed).elim
      · rintro ⟨all, _⟩
        obtain ⟨x, member⟩ := List.exists_mem_of_ne_nil _ empty
        exact absurd (all x member) List.not_mem_nil
    have shorter := length_without le halted
    have apart := nodup_layer le needs (taken t) new
    have begins := (List.nodup_append'.mp apart).1
    rw [run, if_neg empty, if_neg halted, Txn.bind_ok, order, Txn.foldlM_append_ok]
    constructor
    · rintro ⟨t₁, s₁, first, rest⟩
      have now := Txn.foldlM_taken tracks begins first
      rw [ih (by rw [now]; exact apart) (by omega), now] at rest
      refine ⟨fun x member => ?_, t₁, s₁, first, rest.2⟩
      by_cases now : x ∈ (layer needs (taken t) left).mergeSort le
      · exact List.mem_append_left _ now
      · exact List.mem_append_right _ (rest.1 x (mem_without.mpr ⟨member, now⟩))
    · rintro ⟨all, t₁, s₁, first, rest⟩
      refine ⟨t₁, s₁, first, ?_⟩
      have now := Txn.foldlM_taken tracks begins first
      rw [ih (by rw [now]; exact apart) (by omega), now]
      refine ⟨fun x member => ?_, rest⟩
      obtain ⟨here, later⟩ := mem_without.mp member
      exact (List.mem_append.mp (all x here)).resolve_left later

end Run

end Layers

end Lib
