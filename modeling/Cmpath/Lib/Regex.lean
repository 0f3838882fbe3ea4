import Mathlib.Data.List.Forall2
import Mathlib.Data.List.Infix

/-!
# Backtracking patterns

`Regex` is the part of a backtracking matcher's language that has no memory: classes, words' ends,
alternatives, greedy and reluctant repetition of a class, and negative lookahead. `runs` lists what
a pattern can read of a text in the order a backtracking matcher tries it, so its head is the
match. `Matches` says the same without an order, and `mem_runs` that the two agree.
-/

namespace Lib

/-- A pattern over symbols of a type. -/
inductive Regex (α : Type) where
  | eps
  | cls (p : α → Bool)
  | bound (word : α → Bool)
  | seq (a b : Regex α)
  | alt (a b : Regex α)
  | many (p : α → Bool) (least : Nat)
  | few (p : α → Bool)
  | notNext (r : Regex α)

namespace Regex

variable {α : Type}

/-- The symbol before the place reached. -/
def after (prev : Option α) (read : List α) : Option α := read.getLast?.or prev

@[simp] theorem after_nil (prev : Option α) : after prev [] = prev := rfl

theorem after_append (prev : Option α) (u v : List α) :
    after prev (u ++ v) = after (after prev u) v := by
  unfold after
  rw [List.getLast?_append, Option.or_assoc]

theorem after_cons (prev : Option α) (c : α) (u : List α) :
    after prev (c :: u) = after (some c) u := after_append prev [c] u

/-- A word begins or ends between two places. -/
def edge (word : α → Bool) (prev next : Option α) : Bool := prev.any word != next.any word

/-- Read as much of a class as there is, then less and less, but at least so much. -/
def greedy (p : α → Bool) : Nat → List α → List (List α × List α)
  | 0, [] => [([], [])]
  | _ + 1, [] => []
  | 0, c :: t =>
      if p c then (greedy p 0 t).map (fun s => (c :: s.1, s.2)) ++ [([], c :: t)]
      else [([], c :: t)]
  | n + 1, c :: t => if p c then (greedy p n t).map (fun s => (c :: s.1, s.2)) else []

/-- Read nothing of a class, then more and more. -/
def reluctant (p : α → Bool) : List α → List (List α × List α)
  | [] => [([], [])]
  | c :: t =>
      ([], c :: t) :: if p c then (reluctant p t).map (fun s => (c :: s.1, s.2)) else []

/-- What a pattern can read of a text, and what is left, the first choice first. -/
def runs : Regex α → Option α → List α → List (List α × List α)
  | eps, _, t => [([], t)]
  | cls _, _, [] => []
  | cls p, _, c :: t => if p c then [([c], t)] else []
  | bound word, prev, t => if edge word prev t.head? then [([], t)] else []
  | seq a b, prev, t =>
      (runs a prev t).flatMap fun s => (runs b (after prev s.1) s.2).map fun e => (s.1 ++ e.1, e.2)
  | alt a b, prev, t => runs a prev t ++ runs b prev t
  | many p least, _, t => greedy p least t
  | few p, _, t => reluctant p t
  | notNext r, prev, t => if (runs r prev t).isEmpty then [([], t)] else []

/-- The pattern can read a text that stands between a symbol and a rest. -/
def Matches : Regex α → Option α → List α → List α → Prop
  | eps, _, u, _ => u = []
  | cls p, _, u, _ => ∃ c, u = [c] ∧ p c = true
  | bound word, prev, u, rest => u = [] ∧ edge word prev rest.head? = true
  | seq a b, prev, u, rest =>
      ∃ v w, u = v ++ w ∧ Matches a prev v (w ++ rest) ∧ Matches b (after prev v) w rest
  | alt a b, prev, u, rest => Matches a prev u rest ∨ Matches b prev u rest
  | many p least, _, u, _ => (∀ c ∈ u, p c = true) ∧ least ≤ u.length
  | few p, _, u, _ => ∀ c ∈ u, p c = true
  | notNext r, prev, u, rest => u = [] ∧ ∀ v w, rest = v ++ w → ¬Matches r prev v w

/-- A nonempty part read begins with the first symbol. -/
theorem mem_map_cons {c : α} {l : List (List α × List α)} {u rest : List α} :
    (u, rest) ∈ l.map (fun s => (c :: s.1, s.2)) ↔ ∃ v, u = c :: v ∧ (v, rest) ∈ l := by
  rw [List.mem_map]
  constructor
  · rintro ⟨⟨v, rest'⟩, member, same⟩
    cases same
    exact ⟨v, rfl, member⟩
  · rintro ⟨v, rfl, member⟩
    exact ⟨(v, rest), member, rfl⟩

theorem mem_greedy {p : α → Bool} : ∀ {t : List α} {n : Nat} {u rest : List α},
    (u, rest) ∈ greedy p n t ↔ t = u ++ rest ∧ (∀ c ∈ u, p c = true) ∧ n ≤ u.length
  | [], 0, u, rest => by
      rw [greedy, List.mem_singleton, Prod.mk.injEq, eq_comm (a := []), List.append_eq_nil_iff]
      constructor
      · rintro ⟨rfl, rfl⟩
        simp
      · exact And.left
  | [], n + 1, u, rest => by
      rw [greedy, eq_comm (a := []), List.append_eq_nil_iff]
      constructor
      · exact fun member => absurd member List.not_mem_nil
      · rintro ⟨⟨rfl, _⟩, _, size⟩
        simp at size
  | c :: t, 0, u, rest => by
      have stop : (u, rest) = ([], c :: t) ↔ u = [] ∧ c :: t = rest := by
        rw [Prod.mk.injEq, eq_comm (a := rest)]
      have go : ∀ v, (v, rest) ∈ greedy p 0 t ↔ _ := fun v => mem_greedy
      cases h : p c with
      | true =>
        simp only [greedy, h, if_true, List.mem_append, mem_map_cons, List.mem_singleton, stop, go]
        cases u with
        | nil => simp
        | cons d u => simp; grind
      | false =>
        simp only [greedy, h, List.mem_singleton, stop, Bool.false_eq_true, if_false]
        cases u with
        | nil => simp
        | cons d u => simp; grind
  | c :: t, n + 1, u, rest => by
      have go : ∀ v, (v, rest) ∈ greedy p n t ↔ _ := fun v => mem_greedy
      cases h : p c with
      | true =>
        simp only [greedy, h, if_true, mem_map_cons, go]
        cases u with
        | nil => simp
        | cons d u => simp; grind
      | false =>
        simp only [greedy, h, Bool.false_eq_true, if_false, List.not_mem_nil, false_iff]
        cases u with
        | nil => simp
        | cons d u => simp; grind

theorem mem_reluctant {p : α → Bool} : ∀ {t u rest : List α},
    (u, rest) ∈ reluctant p t ↔ t = u ++ rest ∧ ∀ c ∈ u, p c = true
  | [], u, rest => by
      rw [reluctant, List.mem_singleton, Prod.mk.injEq, eq_comm (a := []), List.append_eq_nil_iff]
      constructor
      · rintro ⟨rfl, rfl⟩
        simp
      · exact And.left
  | c :: t, u, rest => by
      have stop : (u, rest) = ([], c :: t) ↔ u = [] ∧ c :: t = rest := by
        rw [Prod.mk.injEq, eq_comm (a := rest)]
      have go : ∀ v, (v, rest) ∈ reluctant p t ↔ _ := fun v => mem_reluctant
      cases h : p c with
      | true =>
        simp only [reluctant, h, if_true, List.mem_cons, mem_map_cons, stop, go]
        cases u with
        | nil => simp
        | cons d u => simp; grind
      | false =>
        simp only [reluctant, h, Bool.false_eq_true, if_false, List.mem_singleton, stop]
        cases u with
        | nil => simp
        | cons d u => simp; grind

/-- What the matcher tries is what the pattern can read. -/
theorem mem_runs : ∀ {r : Regex α} {prev : Option α} {t u rest : List α},
    (u, rest) ∈ runs r prev t ↔ t = u ++ rest ∧ Matches r prev u rest
  | eps, prev, t, u, rest => by
      simp only [runs, Matches, List.mem_singleton, Prod.mk.injEq]
      grind
  | cls p, prev, [], u, rest => by
      simp only [runs, Matches, List.not_mem_nil, false_iff]
      grind
  | cls p, prev, c :: t, u, rest => by
      simp only [runs, Matches]
      split <;> simp <;> grind
  | bound word, prev, t, u, rest => by
      simp only [runs, Matches]
      split <;> simp <;> grind
  | seq a b, prev, t, u, rest => by
      simp only [runs, Matches, List.mem_flatMap, List.mem_map, Prod.mk.injEq, Prod.exists]
      constructor
      · rintro ⟨v, t', first, w, rest', second, rfl, rfl⟩
        obtain ⟨rfl, read⟩ := mem_runs.mp first
        obtain ⟨rfl, more⟩ := mem_runs.mp second
        exact ⟨by rw [List.append_assoc], v, w, rfl, read, more⟩
      · rintro ⟨rfl, v, w, rfl, first, second⟩
        exact ⟨v, w ++ rest, mem_runs.mpr ⟨by rw [List.append_assoc], first⟩, w, rest,
          mem_runs.mpr ⟨rfl, second⟩, rfl, rfl⟩
  | alt a b, prev, t, u, rest => by
      simp only [runs, Matches, List.mem_append, mem_runs]
      grind
  | many p least, prev, t, u, rest => mem_greedy
  | few p, prev, t, u, rest => mem_reluctant
  | notNext r, prev, t, u, rest => by
      have none_ : (runs r prev t).isEmpty = true ↔ ∀ v w, t = v ++ w → ¬Matches r prev v w := by
        rw [List.isEmpty_iff, List.eq_nil_iff_forall_not_mem]
        constructor
        · intro h v w split_ read
          exact h (v, w) (mem_runs.mpr ⟨split_, read⟩)
        · rintro h ⟨v, w⟩ member
          obtain ⟨split_, read⟩ := mem_runs.mp member
          exact h v w split_ read
      simp only [runs, Matches]
      split
      · rename_i empty
        simp only [List.mem_singleton, Prod.mk.injEq]
        constructor
        · rintro ⟨rfl, rfl⟩
          exact ⟨rfl, rfl, none_.mp empty⟩
        · rintro ⟨rfl, rfl, _⟩
          exact ⟨rfl, rfl⟩
      · rename_i full
        simp only [List.not_mem_nil, false_iff]
        rintro ⟨rfl, rfl, gone⟩
        exact full (none_.mpr gone)

/-! ## Derived patterns -/

/-- One symbol after another, each of its own class. -/
def chain : List (α → Bool) → Regex α
  | [] => eps
  | p :: rest => seq (cls p) (chain rest)

/-- A text as it is. -/
def literal [BEq α] (s : List α) : Regex α := chain (s.map fun c => (· == c))

/-- A class so many times. -/
def times (p : α → Bool) (n : Nat) : Regex α := chain (List.replicate n p)

/-- The first alternative that can be read. -/
def oneOf : List (Regex α) → Regex α
  | [] => cls fun _ => false
  | [r] => r
  | r :: rest => alt r (oneOf rest)

/-- A class once or not at all, once if it can. -/
def optional (p : α → Bool) : Regex α := alt (cls p) eps

/-- One pattern after another. -/
def all : List (Regex α) → Regex α
  | [] => eps
  | [r] => r
  | r :: rest => seq r (all rest)

theorem matches_chain : ∀ {ps : List (α → Bool)} {prev : Option α} {u rest : List α},
    Matches (chain ps) prev u rest ↔ List.Forall₂ (fun p c => p c = true) ps u
  | [], prev, u, rest => by
      rw [chain, Matches, List.forall₂_nil_left_iff]
  | p :: ps, prev, u, rest => by
      simp only [chain, Matches, matches_chain, List.forall₂_cons_left_iff]
      constructor
      · rintro ⟨v, w, rfl, ⟨c, rfl, hc⟩, more⟩
        exact ⟨c, w, hc, more, rfl⟩
      · rintro ⟨c, w, hc, more, rfl⟩
        exact ⟨[c], w, rfl, ⟨c, rfl, hc⟩, more⟩

theorem matches_literal [BEq α] [LawfulBEq α] {s u rest : List α} {prev : Option α} :
    Matches (literal s) prev u rest ↔ u = s := by
  unfold literal
  rw [matches_chain, List.forall₂_map_left_iff]
  constructor
  · intro h
    induction h with
    | nil => rfl
    | cons same _ ih => rw [eq_of_beq same, ih]
  · rintro rfl
    exact List.forall₂_same.mpr fun c _ => beq_self_eq_true c

theorem matches_times {p : α → Bool} {n : Nat} {u rest : List α} {prev : Option α} :
    Matches (times p n) prev u rest ↔ (∀ c ∈ u, p c = true) ∧ u.length = n := by
  unfold times
  rw [matches_chain]
  induction n generalizing u with
  | zero => simp [List.forall₂_nil_left_iff]; grind
  | succ n ih =>
    rw [List.replicate_succ, List.forall₂_cons_left_iff]
    constructor
    · rintro ⟨c, w, hc, more, rfl⟩
      obtain ⟨every, size⟩ := ih.mp more
      simp [hc, size]
      exact every
    · rintro ⟨every, size⟩
      cases u with
      | nil => simp at size
      | cons c w =>
        simp only [List.length_cons, Nat.add_right_cancel_iff] at size
        exact ⟨c, w, every c List.mem_cons_self,
          ih.mpr ⟨fun d member => every d (List.mem_cons_of_mem _ member), size⟩, rfl⟩

end Regex

end Lib
