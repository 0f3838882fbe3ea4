import Mathlib.Data.List.Nodup
import Mathlib.Data.List.Sublists

/-!
# Lists with the wanted entries up front

`UpFront wanted l`: no entry of `l` that is not wanted stands before one that is. A list that is cut
keeps every wanted entry, and keeps them up front, exactly if they were up front before the cut.
-/

namespace Lib

variable {α : Type}

/-- No entry that is not wanted stands before one that is. -/
def UpFront (wanted : α → Prop) (l : List α) : Prop := l.Pairwise fun a b => wanted b → wanted a

namespace UpFront

variable {wanted : α → Prop}

theorem of_all {l : List α} (all : ∀ a ∈ l, wanted a) : UpFront wanted l := by
  unfold UpFront
  rw [List.pairwise_iff_forall_sublist]
  intro a b pair _
  exact all a (pair.subset List.mem_cons_self)

theorem append {l r : List α} (all : ∀ a ∈ l, wanted a) (rest : UpFront wanted r) :
    UpFront wanted (l ++ r) :=
  List.pairwise_append.mpr ⟨of_all all, rest, fun a first _ _ _ => all a first⟩

theorem sublist {l r : List α} (h : UpFront wanted r) (part : l.Sublist r) : UpFront wanted l :=
  List.Pairwise.sublist part h

/-- Entries up front fill the list as far as they go. -/
theorem eq_filter_append [DecidablePred wanted] {l : List α} (h : UpFront wanted l) :
    l = l.filter (fun a => wanted a) ++ l.filter fun a => ¬wanted a := by
  induction l with
  | nil => rfl
  | cons a rest ih =>
    obtain ⟨first, later⟩ := List.pairwise_cons.mp h
    by_cases mine : wanted a
    · rw [List.filter_cons_of_pos (by simpa using mine), List.filter_cons_of_neg (by simpa using mine),
        List.cons_append, ← ih later]
    · have none_ : ∀ b ∈ rest, ¬wanted b := fun b member want => mine (first b member want)
      have empty : rest.filter (fun a => wanted a) = [] := by
        simpa [List.filter_eq_nil_iff] using none_
      have full : rest.filter (fun a => ¬wanted a) = rest := by
        simpa [List.filter_eq_self] using none_
      rw [List.filter_cons_of_neg (by simpa using mine), List.filter_cons_of_pos (by simpa using mine),
        empty, full, List.nil_append]

/-- Where the wanted entries are no more than the cut leaves, a cut keeps them all and up front if
    and only if they were up front. -/
theorem take_iff [DecidablePred wanted] {l : List α} {cap : Nat} (distinct : l.Nodup)
    (few : (l.filter fun a => wanted a).length ≤ cap) :
    ((∀ a ∈ l, wanted a → a ∈ l.take cap) ∧ UpFront wanted (l.take cap)) ↔ UpFront wanted l := by
  constructor
  · rintro ⟨kept, front⟩
    rw [← List.take_append_drop cap l] at distinct ⊢
    have cut : ∀ b ∈ l.drop cap, ¬wanted b := fun b member want =>
      (List.nodup_append.mp distinct).2.2 b (kept b (List.mem_of_mem_drop member) want) b member rfl
    refine List.pairwise_append.mpr ⟨front, ?_, fun a _ b member want => absurd want (cut b member)⟩
    rw [List.pairwise_iff_forall_sublist]
    intro a b pair want
    exact absurd want (cut b (pair.subset (List.mem_cons_of_mem _ (List.mem_singleton_self b))))
  · intro front
    refine ⟨fun a member want => ?_, front.sublist (List.take_sublist _ _)⟩
    rw [front.eq_filter_append, List.take_append, List.take_of_length_le few]
    exact List.mem_append_left _ (List.mem_filter.mpr ⟨member, by simpa using want⟩)

end UpFront

end Lib
