import Mathlib.Algebra.BigOperators.Group.Finset.Piecewise
import Mathlib.Algebra.Order.BigOperators.Group.Finset
import Mathlib.Data.List.Dedup

/-!
# Offers that are turned down

Candidates are offered in turn, each is taken or turned down, and some are offered again. The number
of times an offer was turned down is the number of distinct candidates that are absent in the end
exactly if no candidate that was turned down is offered twice (`turnedDown_eq_absent_iff`).
-/

namespace Lib

variable {κ : Type} [DecidableEq κ]

omit [DecidableEq κ] in
theorem nodup_eraseDups [BEq κ] [LawfulBEq κ] : ∀ l : List κ, l.eraseDups.Nodup
  | [] => List.nodup_nil
  | k :: rest => by
      have later := nodup_eraseDups (rest.filter fun x => !x == k)
      rw [List.eraseDups_cons]
      refine List.nodup_cons.mpr ⟨fun member => ?_, later⟩
      have there := (List.mem_filter.mp (List.mem_eraseDups.mp member)).2
      simp at there
termination_by l => l.length
decreasing_by
  exact Nat.lt_succ_of_le (List.length_filter_le _ _)

/-- Candidates in the order they were offered, each with whether it was turned down. -/
abbrev Offers (κ : Type) : Type := List (κ × Bool)

namespace Offers

/-- The candidates offered. -/
abbrev keys (offers : Offers κ) : List κ := offers.map Prod.fst

/-- How often a candidate was turned down. -/
def turnedDown (offers : Offers κ) : Nat := (offers.filter Prod.snd).length

/-- How many different candidates are absent. -/
def absent (present : κ → Prop) [DecidablePred present] (candidates : List κ) : Nat :=
  (candidates.dedup.filter fun k => ¬present k).length

/-- What is there in the end is what was taken. -/
def Settles (present : κ → Prop) (offers : Offers κ) : Prop :=
  ∀ k ∈ offers.keys, present k ↔ (k, false) ∈ offers

omit [DecidableEq κ] in
theorem turnedDown_append (first second : Offers κ) :
    turnedDown (first ++ second) = turnedDown first + turnedDown second := by
  simp [turnedDown]

omit [DecidableEq κ] in
theorem Settles.nil {present : κ → Prop} : Settles present [] :=
  fun _ member => absurd member List.not_mem_nil

omit [DecidableEq κ] in
/-- One more offer, which changes nothing about the others. -/
theorem Settles.again {present present' : κ → Prop} {offers : Offers κ} (h : Settles present offers)
    {k : κ} {down : Bool} (others : ∀ l ∈ offers.keys, l ≠ k → (present' l ↔ present l))
    (self : present' k ↔ down = false ∨ (k, false) ∈ offers) :
    Settles present' (offers ++ [(k, down)]) := by
  intro l member
  rw [List.mem_append, List.mem_singleton, Prod.mk.injEq]
  by_cases mine : l = k
  · subst mine
    rw [self, or_comm]
    simp [eq_comm]
  · have old : l ∈ offers.keys := by
      simpa [mine] using member
    rw [others l old mine, h l old]
    simp [mine]

omit [DecidableEq κ] in
/-- A first offer. -/
theorem Settles.offer {present present' : κ → Prop} {offers : Offers κ} (h : Settles present offers)
    {k : κ} {down : Bool} (fresh : k ∉ offers.keys)
    (others : ∀ l ∈ offers.keys, present' l ↔ present l) (self : present' k ↔ down = false) :
    Settles present' (offers ++ [(k, down)]) := by
  have never : (k, false) ∉ offers := fun taken => fresh (List.mem_map.mpr ⟨_, taken, rfl⟩)
  exact h.again (fun l member _ => others l member) (by simp [self, never])

theorem count_keys (offers : Offers κ) (k : κ) :
    offers.keys.count k = offers.count (k, true) + offers.count (k, false) := by
  induction offers with
  | nil => rfl
  | cons offer rest ih =>
    obtain ⟨other, refused⟩ := offer
    rw [keys, List.map_cons, List.count_cons, List.count_cons, List.count_cons]
    by_cases mine : other = k
    · cases refused
      · simp [mine, ih]
        omega
      · simp [mine, ih]
        omega
    · simp [mine, ih]

theorem turnedDown_eq_sum (offers : Offers κ) :
    offers.turnedDown = ∑ k ∈ offers.keys.toFinset, offers.count (k, true) := by
  have counted : ∀ k, offers.count (k, true) = ((offers.filter Prod.snd).map Prod.fst).count k := by
    intro k
    induction offers with
    | nil => rfl
    | cons offer rest ih =>
      obtain ⟨other, refused⟩ := offer
      cases refused
      · rw [List.filter_cons_of_neg (by simp), ← ih, List.count_cons_of_ne (by simp)]
      · rw [List.filter_cons_of_pos rfl, List.map_cons, List.count_cons, List.count_cons, ih]
        simp
  have part : ((offers.filter Prod.snd).map Prod.fst).toFinset ⊆ offers.keys.toFinset := by
    intro k member
    rw [List.mem_toFinset, List.mem_map] at member ⊢
    obtain ⟨offer, there, same⟩ := member
    exact ⟨offer, (List.mem_filter.mp there).1, same⟩
  have length : turnedDown offers = ((offers.filter Prod.snd).map Prod.fst).length := by
    rw [turnedDown, List.length_map]
  rw [length, ← List.sum_toFinset_count_eq_length, Finset.sum_congr rfl fun k _ => counted k]
  refine Finset.sum_subset part fun k _ other => ?_
  rw [List.mem_toFinset] at other
  exact List.count_eq_zero.mpr other

theorem absent_eq_sum (present : κ → Prop) [DecidablePred present] (candidates : List κ) :
    absent present candidates = ∑ k ∈ candidates.toFinset, if ¬present k then 1 else 0 := by
  have distinct : (candidates.dedup.filter fun k => ¬present k).Nodup :=
    candidates.nodup_dedup.filter _
  rw [absent, ← List.toFinset_card_of_nodup distinct, ← Finset.card_filter]
  congr 1
  ext k
  simp

/-- **The offers turned down are the candidates absent, unless one is offered after it was turned
    down, or was turned down after it was offered.** -/
theorem turnedDown_eq_absent_iff {present : κ → Prop} [DecidablePred present] {offers : Offers κ}
    (settles : Settles present offers) :
    offers.turnedDown = absent present offers.keys ↔
      ∀ k, (k, true) ∈ offers → offers.keys.count k = 1 := by
  have below : ∀ k ∈ offers.keys.toFinset,
      (if ¬present k then 1 else 0) ≤ offers.count (k, true) := by
    intro k member
    rw [List.mem_toFinset] at member
    split
    · rename_i gone
      obtain ⟨⟨_, refused⟩, offer, rfl⟩ := List.mem_map.mp member
      cases refused
      · exact absurd ((settles _ member).mpr offer) gone
      · exact List.count_pos_iff.mpr offer
    · exact Nat.zero_le _
  rw [turnedDown_eq_sum, absent_eq_sum, eq_comm, Finset.sum_eq_sum_iff_of_le below]
  constructor
  · intro equal k refused
    have member : k ∈ offers.keys := List.mem_map.mpr ⟨_, refused, rfl⟩
    have same := equal k (List.mem_toFinset.mpr member)
    have some_ : 0 < offers.count (k, true) := List.count_pos_iff.mpr refused
    rw [count_keys]
    split at same
    · rename_i gone
      have never : offers.count (k, false) = 0 :=
        List.count_eq_zero.mpr fun taken => gone ((settles k member).mpr taken)
      omega
    · omega
  · intro once k member
    rw [List.mem_toFinset] at member
    by_cases refused : (k, true) ∈ offers
    · have one := once k refused
      have some_ : 0 < offers.count (k, true) := List.count_pos_iff.mpr refused
      rw [count_keys] at one
      have gone : ¬present k := by
        intro here
        have taken := List.count_pos_iff.mpr ((settles k member).mp here)
        omega
      rw [if_pos gone]
      omega
    · have none_ : offers.count (k, true) = 0 := List.count_eq_zero.mpr refused
      obtain ⟨⟨_, down⟩, offer, rfl⟩ := List.mem_map.mp member
      cases down
      · rw [if_neg (not_not.mpr ((settles _ member).mpr offer)), none_]
      · exact absurd offer refused

/-- Candidates that are offered once each. -/
theorem turnedDown_eq_absent {present : κ → Prop} [DecidablePred present] {offers : Offers κ}
    (settles : Settles present offers) (distinct : offers.keys.Nodup) :
    offers.turnedDown = absent present offers.keys :=
  (turnedDown_eq_absent_iff settles).mpr fun _ refused =>
    List.count_eq_one_of_mem distinct (List.mem_map.mpr ⟨_, refused, rfl⟩)

/-- A candidate that is there counts for nothing, offered or not. -/
theorem absent_congr {present : κ → Prop} [DecidablePred present] {offered candidates : List κ}
    (part : offered ⊆ candidates) (rest : ∀ k ∈ candidates, k ∈ offered ∨ present k) :
    absent present candidates = absent present offered := by
  refine List.Perm.length_eq ?_
  rw [List.perm_ext_iff_of_nodup (candidates.nodup_dedup.filter _) (offered.nodup_dedup.filter _)]
  intro k
  simp only [List.mem_filter, List.mem_dedup, decide_eq_true_eq]
  constructor
  · rintro ⟨member, gone⟩
    exact ⟨(rest k member).resolve_right gone, gone⟩
  · rintro ⟨member, gone⟩
    exact ⟨part member, gone⟩

end Offers

end Lib
