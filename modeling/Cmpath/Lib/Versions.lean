import Mathlib.Data.List.Basic
import Mathlib.Data.List.Count
import Mathlib.Order.Lattice
import Mathlib.Algebra.Order.Ring.Int

/-!
# One sequence of versions for each key

A log of rows, each with a key and a version. A writer that gives a row the version after the
greatest its key has (`Recorded`) numbers the rows of every key 1, 2, 3, …, in the order written.
-/

namespace Lib

/-- 1, …, n. -/
def upTo (n : Nat) : List Int := (List.range n).map fun i : Nat => (i : Int) + 1

namespace Versions

variable {ρ κ : Type} [BEq κ]

/-- The versions of a key, in the order they were written. -/
def of (key : ρ → κ) (version : ρ → Int) (rows : List ρ) (k : κ) : List Int :=
  (rows.filter fun r => key r == k).map version

/-- The greatest of them, 0 if there is none. -/
def latest (key : ρ → κ) (version : ρ → Int) (rows : List ρ) (k : κ) : Int :=
  (of key version rows k).foldr max 0

/-- `out` is `rows` with one row more for each key, numbered after the rows its key had. -/
inductive Recorded (key : ρ → κ) (version : ρ → Int) : List ρ → List κ → List ρ → Prop where
  | done (rows : List ρ) : Recorded key version rows [] rows
  | row {rows out : List ρ} {keys : List κ} (new : ρ)
      (next : version new = latest key version rows (key new) + 1)
      (rest : Recorded key version (rows ++ [new]) keys out) :
      Recorded key version rows (key new :: keys) out

end Versions

@[simp] theorem length_upTo (n : Nat) : (upTo n).length = n := by simp [upTo]

theorem upTo_succ (n : Nat) : upTo (n + 1) = upTo n ++ [(n : Int) + 1] := by
  simp [upTo, List.range_succ]

theorem mem_upTo {n : Nat} {i : Int} : i ∈ upTo n ↔ 1 ≤ i ∧ i ≤ n := by
  simp only [upTo, List.mem_map, List.mem_range]
  constructor
  · rintro ⟨j, below, rfl⟩
    omega
  · rintro ⟨low, high⟩
    exact ⟨(i - 1).toNat, by omega, by omega⟩

theorem upTo_injective {m n : Nat} (h : upTo m = upTo n) : m = n := by
  have lengths := congrArg List.length h
  simpa using lengths

theorem max_append (l : List Int) (i : Int) : (l ++ [i]).foldr max 0 = max (l.foldr max 0) (max i 0) := by
  induction l with
  | nil => simp
  | cons head rest ih =>
    rw [List.cons_append, List.foldr_cons, List.foldr_cons, ih, max_assoc]

/-- The greatest of 1, …, n is n. -/
theorem max_upTo (n : Nat) : (upTo n).foldr max 0 = (n : Int) := by
  induction n with
  | zero => rfl
  | succ n ih =>
    rw [upTo_succ, max_append, ih]
    push_cast
    omega

namespace Versions

variable {ρ κ : Type} [BEq κ] {key : ρ → κ} {version : ρ → Int} {rows out : List ρ} {k : κ}

theorem of_append (first second : List ρ) :
    of key version (first ++ second) k = of key version first k ++ of key version second k := by
  simp [of]

theorem of_delete [LawfulBEq κ] {p : ρ → Bool} (other : ∀ r ∈ rows, p r = true → key r ≠ k) :
    of key version (rows.filter fun r => !p r) k = of key version rows k := by
  unfold of
  rw [List.filter_filter]
  congr 1
  refine List.filter_congr fun r member => ?_
  cases gone : p r with
  | false => simp
  | true => simp [other r member gone]

theorem of_eq_nil [LawfulBEq κ] (none_ : ∀ r ∈ rows, key r ≠ k) : of key version rows k = [] := by
  have empty : rows.filter (fun r => key r == k) = [] :=
    List.filter_eq_nil_iff.mpr fun r member => by simpa using none_ r member
  rw [of, empty]
  rfl

namespace Recorded

/-- The rows that are there stay. -/
theorem kept {keys : List κ} (h : Recorded key version rows keys out) : rows <+: out := by
  induction h with
  | done => exact List.prefix_refl _
  | row new _ _ ih => exact (List.prefix_append _ [new]).trans ih

/-- Each key has its row. -/
theorem mem {keys : List κ} (h : Recorded key version rows keys out) {k : κ} (member : k ∈ keys) :
    ∃ r ∈ out, key r = k := by
  induction h with
  | done => exact absurd member List.not_mem_nil
  | row new _ rest ih =>
    rcases List.mem_cons.mp member with rfl | later
    · exact ⟨new, rest.kept.subset (List.mem_append_right _ (List.mem_singleton_self _)), rfl⟩
    · exact ih later

theorem trans {mid : List ρ} {first second : List κ} (h : Recorded key version rows first mid)
    (later : Recorded key version mid second out) :
    Recorded key version rows (first ++ second) out := by
  induction h with
  | done => exact later
  | row new next _ ih => exact .row new next (ih later)

theorem single (new : ρ) (next : version new = latest key version rows (key new) + 1) :
    Recorded key version rows [key new] (rows ++ [new]) :=
  .row new next (.done _)

/-- **Versions that were 1, …, n go on with n + 1.** -/
theorem versions [LawfulBEq κ] {keys : List κ} {n : Nat} (h : Recorded key version rows keys out)
    (before : of key version rows k = upTo n) :
    of key version out k = upTo (n + keys.count k) := by
  induction h generalizing n with
  | done => simpa using before
  | @row rows out keys new next _ ih =>
    by_cases mine : key new = k
    · have numbered : of key version (rows ++ [new]) k = upTo (n + 1) := by
        have last : of key version [new] k = [version new] := by simp [of, mine]
        rw [of_append, before, last, next, mine, latest, before, max_upTo, upTo_succ]
      rw [ih numbered, mine, List.count_cons_self]
      congr 1
      omega
    · have same : of key version (rows ++ [new]) k = upTo n := by
        rw [of_append, before, of_eq_nil (by simpa using mine), List.append_nil]
      rw [ih same, List.count_cons_of_ne mine]

end Recorded

/-- Where the versions of a key are 1, …, n + 1, one row has the greatest, and it is the last. -/
theorem last_of_upTo {n : Nat} (numbered : of key version rows k = upTo (n + 1)) :
    ∃ before row, rows.filter (fun r => key r == k) = before ++ [row] ∧
      version row = latest key version rows k ∧ ∀ r ∈ before, version r < version row := by
  have top : latest key version rows k = (n : Int) + 1 := by
    rw [latest, numbered, max_upTo]
    push_cast
    rfl
  rw [of, upTo_succ] at numbered
  obtain ⟨before, last, split, first, final⟩ := List.map_eq_append_iff.mp numbered
  obtain ⟨row, rfl, own⟩ : ∃ row, last = [row] ∧ version row = (n : Int) + 1 := by
    cases last with
    | nil => cases final
    | cons row rest =>
      rw [List.map_cons, List.cons.injEq] at final
      exact ⟨row, by rw [List.map_eq_nil_iff.mp final.2], final.1⟩
  refine ⟨before, row, split, by rw [own, top], fun r member => ?_⟩
  have listed : version r ∈ upTo n := by
    rw [← first]
    exact List.mem_map_of_mem member
  have below := (mem_upTo.mp listed).2
  omega

end Versions

end Lib
