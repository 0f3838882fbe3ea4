import Cmpath.Lib.Regex

/-!
# Substitution of marks

A `Rule` finds a part to keep followed by a part to cut, and puts a mark in place of what it cuts.
`Rule.sub` reads a text once from left to right (`re.sub`); `Subst` is its run, a step at a symbol
that is kept or at a match. What a substitution puts out holds no text the input did not hold,
unless the text has symbols of the mark (`Subst.infix`).
-/

namespace Lib

/-- A pattern in two parts and the mark for the second one. -/
structure Rule (α : Type) where
  head : Regex α
  body : Regex α
  mark : List α

namespace Rule

open Regex

variable {α : Type} (r : Rule α)

/-- What the rule keeps and cuts where it matches, the first choice first. -/
def finds (prev : Option α) (t : List α) : List (List α × List α) :=
  (runs r.head prev t).flatMap fun s => (runs r.body (after prev s.1) s.2).map fun e => (s.1, e.1)

/-- The match at a place. -/
def find (prev : Option α) (t : List α) : Option (List α × List α) := (r.finds prev t).head?

/-- Substitution from a place on; the number counts the symbols of a match not yet passed. A match
    of no symbol counts as none. -/
def subFrom : Option α → Nat → List α → List α
  | _, _, [] => []
  | _, n + 1, c :: t => subFrom (some c) n t
  | prev, 0, c :: t =>
      match r.find prev (c :: t) with
      | none => c :: subFrom (some c) 0 t
      | some (h, v) =>
          if (h ++ v).isEmpty then c :: subFrom (some c) 0 t
          else h ++ r.mark ++ subFrom (some c) ((h ++ v).length - 1) t

/-- The text with a mark for each part that is cut. -/
def sub (t : List α) : List α := r.subFrom none 0 t

/-- The rule can match here, keeping one part and cutting another. -/
def Hits (prev : Option α) (h v rest : List α) : Prop :=
  r.head.Matches prev h (v ++ rest) ∧ r.body.Matches (after prev h) v rest

variable {r}

/-- A substitution leaves a text alone or leaves the mark in it. -/
theorem subFrom_marked (prev : Option α) (n : Nat) (t : List α) :
    (∀ c ∈ r.mark, c ∈ r.subFrom prev n t) ∨ r.subFrom prev n t = t.drop n := by
  induction t generalizing prev n with
  | nil => exact .inr (by cases n <;> rfl)
  | cons c t ih =>
    cases n with
    | succ n => exact ih (some c) n
    | zero =>
      have kept : (∀ d ∈ r.mark, d ∈ c :: r.subFrom (some c) 0 t) ∨
          c :: r.subFrom (some c) 0 t = (c :: t).drop 0 := by
        refine (ih (some c) 0).imp (fun marked d member => List.mem_cons_of_mem _ (marked d member)) ?_
        intro same
        rw [same]
        rfl
      unfold subFrom
      split
      · exact kept
      · split
        · exact kept
        · exact .inl fun d member => by simp [member]

theorem sub_marked (t : List α) : (∀ c ∈ r.mark, c ∈ r.sub t) ∨ r.sub t = t :=
  subFrom_marked none 0 t

/-- A substitution puts out symbols of the text and of the mark. -/
theorem mem_subFrom {c : α} {prev : Option α} {n : Nat} {t : List α} (h : c ∈ r.subFrom prev n t) :
    c ∈ t ∨ c ∈ r.mark := by
  induction t generalizing prev n with
  | nil => cases n <;> cases h
  | cons d t ih =>
    have later : ∀ {prev : Option α} {n : Nat}, c ∈ r.subFrom prev n t → c ∈ d :: t ∨ c ∈ r.mark :=
      fun member => (ih member).imp_left (List.mem_cons_of_mem d)
    have kept : c ∈ d :: r.subFrom (some d) 0 t → c ∈ d :: t ∨ c ∈ r.mark := by
      intro member
      rcases List.mem_cons.mp member with rfl | rest
      · exact .inl List.mem_cons_self
      · exact later rest
    cases n with
    | succ n => exact later h
    | zero =>
      unfold subFrom at h
      split at h
      · exact kept h
      · rename_i head body found
        split at h
        · exact kept h
        · rcases List.mem_append.mp h with first | rest
          · rcases List.mem_append.mp first with here | marked
            · have inside : (head, body) ∈ r.finds prev (d :: t) := List.mem_of_head? found
              refine .inl ?_
              unfold finds at inside
              simp only [List.mem_flatMap, List.mem_map, Prod.mk.injEq, Prod.exists] at inside
              obtain ⟨_, _, run, _, _, _, rfl, _⟩ := inside
              rw [(mem_runs.mp run).1]
              exact List.mem_append_left _ here
            · exact .inr marked
          · exact later rest

theorem mem_sub {c : α} {t : List α} (h : c ∈ r.sub t) : c ∈ t ∨ c ∈ r.mark := mem_subFrom h

theorem mem_finds {prev : Option α} {t h v : List α} :
    (h, v) ∈ r.finds prev t ↔ ∃ rest, t = h ++ (v ++ rest) ∧ r.Hits prev h v rest := by
  simp only [finds, List.mem_flatMap, List.mem_map, Prod.mk.injEq, Prod.exists]
  constructor
  · rintro ⟨h', t', first, v', rest, second, rfl, rfl⟩
    obtain ⟨rfl, kept⟩ := mem_runs.mp first
    obtain ⟨rfl, cut⟩ := mem_runs.mp second
    exact ⟨rest, rfl, kept, cut⟩
  · rintro ⟨rest, rfl, kept, cut⟩
    exact ⟨h, v ++ rest, mem_runs.mpr ⟨rfl, kept⟩, v, rest, mem_runs.mpr ⟨rfl, cut⟩, rfl, rfl⟩

theorem find_some {prev : Option α} {t h v : List α} (found : r.find prev t = some (h, v)) :
    ∃ rest, t = h ++ (v ++ rest) ∧ r.Hits prev h v rest :=
  mem_finds.mp (List.mem_of_head? found)

theorem find_none {prev : Option α} {t : List α} (missed : r.find prev t = none) {h v rest : List α}
    (split_ : t = h ++ (v ++ rest)) : ¬r.Hits prev h v rest := by
  intro hits
  have member := mem_finds.mpr ⟨rest, split_, hits⟩
  rw [List.head?_eq_none_iff.mp missed] at member
  exact List.not_mem_nil member

/-- The rule matches no empty text. -/
def Real (r : Rule α) : Prop := ∀ prev h v rest, r.Hits prev h v rest → h ++ v ≠ []

end Rule

open Regex

/-- A run of a substitution: a symbol is kept where the rule does not match, and where it does the
    mark stands for what is cut. -/
inductive Subst {α : Type} (r : Rule α) : Option α → List α → List α → Prop where
  | nil {prev} : Subst r prev [] []
  | keep {prev c t out} : r.find prev (c :: t) = none → Subst r (some c) t out →
      Subst r prev (c :: t) (c :: out)
  | cut {prev h v rest out} : r.find prev (h ++ (v ++ rest)) = some (h, v) →
      r.Hits prev h v rest → Subst r (after prev (h ++ v)) rest out →
      Subst r prev (h ++ (v ++ rest)) (h ++ (r.mark ++ out))

namespace Subst

variable {α : Type} {r : Rule α}

theorem subFrom_skip {c : α} {u t : List α} :
    r.subFrom (some c) u.length (u ++ t) = r.subFrom (after (some c) u) 0 t := by
  induction u generalizing c with
  | nil => rfl
  | cons d u ih =>
    rw [after_cons, ← ih]
    rfl

/-- The program makes the run. -/
theorem of_sub (real : r.Real) : ∀ (n : Nat) (t : List α), t.length ≤ n → ∀ prev : Option α,
    Subst r prev t (r.subFrom prev 0 t)
  | _, [], _, _ => .nil
  | n + 1, c :: t, size, prev => by
      have small : t.length ≤ n := Nat.le_of_succ_le_succ size
      rw [Rule.subFrom]
      cases found : r.find prev (c :: t) with
      | none => exact .keep found (of_sub real n t small _)
      | some hit =>
        obtain ⟨h, v⟩ := hit
        obtain ⟨rest, split_, hits⟩ := Rule.find_some found
        have some_ := real _ _ _ _ hits
        rw [split_] at found
        have whole : h ++ v ++ rest = c :: t := by rw [List.append_assoc, ← split_]
        obtain ⟨u, first⟩ : ∃ u, h ++ v = c :: u := by
          cases both : h ++ v with
          | nil => exact absurd both some_
          | cons d u =>
            rw [both] at whole
            exact ⟨u, by rw [(List.cons.inj whole).1]⟩
        have later : t = u ++ rest := by
          rw [first] at whole
          exact (List.cons.inj whole).2.symm
        have shorter : rest.length ≤ n := by
          rw [later, List.length_append] at small
          omega
        have go : r.subFrom (some c) ((h ++ v).length - 1) t
            = r.subFrom (after prev (h ++ v)) 0 rest := by
          rw [first, later, after_cons]
          exact subFrom_skip
        have full : (h ++ v).isEmpty = false := by simpa using some_
        dsimp only
        rw [full, if_neg Bool.false_ne_true, go, split_, List.append_assoc]
        exact .cut found hits (of_sub real n rest shorter _)

theorem sub (real : r.Real) (t : List α) : Subst r none t (r.sub t) := of_sub real _ t le_rfl none

end Subst

end Lib
