import Mathlib.Data.List.Sort
import Mathlib.Data.Int.Order.Basic

/-!
# Reading a table row by row

A table of rows under distinct row identifiers, and the query for its first row. To ask again and
again for the first row after the last one read is to read the rows that match in ascending order
(`first_after`), whatever the identifiers are.
-/

namespace Lib

/-- Rows under distinct row identifiers. -/
structure RowTable (ρ : Type) where
  rows : List (Int × ρ)
  distinct : (rows.map Prod.fst).Nodup

namespace RowTable

variable {ρ : Type}

/-- `SELECT rowid,* … WHERE … ORDER BY rowid`. -/
def select (t : RowTable ρ) (p : Int × ρ → Bool) : List (Int × ρ) :=
  (t.rows.filter p).insertionSort fun a b => a.1 ≤ b.1

/-- The same with `LIMIT 1`. -/
def first (t : RowTable ρ) (p : Int × ρ → Bool) : Option (Int × ρ) := (t.select p).head?

variable {t : RowTable ρ} {p : Int × ρ → Bool}

theorem select_perm : (t.select p).Perm (t.rows.filter p) := List.perm_insertionSort _ _

theorem mem_select {r : Int × ρ} : r ∈ t.select p ↔ r ∈ t.rows ∧ p r = true := by
  rw [select_perm.mem_iff, List.mem_filter]

theorem length_select : (t.select p).length ≤ t.rows.length := by
  rw [select_perm.length_eq]
  exact List.length_filter_le _ _

theorem length_select_all : (t.select fun _ => true).length = t.rows.length := by
  rw [select_perm.length_eq]
  simp

/-- The rows come in strictly ascending order. -/
theorem select_ascending : (t.select p).Pairwise fun a b => a.1 < b.1 := by
  have weak : (t.select p).Pairwise fun a b => a.1 ≤ b.1 := List.pairwise_insertionSort _ _
  have apart : (t.select p).Pairwise fun a b => a.1 ≠ b.1 := by
    have keys : ((t.rows.filter p).map Prod.fst).Nodup :=
      t.distinct.sublist (List.filter_sublist.map _)
    rw [← List.pairwise_map]
    exact (select_perm.map Prod.fst).nodup_iff.mpr keys
  exact (weak.and apart).imp fun both => lt_of_le_of_ne both.1 both.2

/-- A stronger condition selects some of the rows, in the same order. -/
theorem select_and (q : Int × ρ → Bool) :
    (t.select fun r => p r && q r) = (t.select p).filter q := by
  have same : ((t.select fun r => p r && q r)).Perm ((t.select p).filter q) := by
    refine select_perm.trans ?_
    rw [show (fun r => p r && q r) = fun r => q r && p r from funext fun r => Bool.and_comm _ _,
      ← List.filter_filter]
    exact (select_perm.filter q).symm
  refine same.eq_of_pairwise (fun a b _ _ low high => absurd low (lt_asymm high)) select_ascending ?_
  exact select_ascending.sublist List.filter_sublist

/-- The first row that matches and comes after those read is the next one. -/
theorem first_after {read rest : List (Int × ρ)} {r : Int × ρ}
    (order : t.select p = read ++ r :: rest) :
    t.first (fun x => p x && decide (r.1 < x.1)) = rest.head? := by
  have ascending := t.select_ascending (p := p)
  rw [order] at ascending
  obtain ⟨_, tail, before⟩ := List.pairwise_append.mp ascending
  have later := (List.pairwise_cons.mp tail).1
  have early : read.filter (fun x => decide (r.1 < x.1)) = [] := by
    refine List.filter_eq_nil_iff.mpr fun x member => ?_
    have below := before x member r List.mem_cons_self
    simp [not_lt.mpr (le_of_lt below)]
  have all : rest.filter (fun x => decide (r.1 < x.1)) = rest :=
    List.filter_eq_self.mpr fun x member => by simpa using later x member
  unfold first
  rw [select_and, order, List.filter_append, early, List.nil_append,
    List.filter_cons_of_neg (by simp), all]

end RowTable

end Lib
