import Mathlib.Algebra.GroupWithZero.Nat
import Mathlib.Data.List.Basic
import Mathlib.Data.List.Nodup

/-!
# Tables as lists of rows

A table is the list of its rows, oldest first. `replace` is an update through a unique key,
`update` and `delete` the statements with a `WHERE` clause, `Keyed` a `UNIQUE` constraint.
-/

namespace Lib

namespace Table

variable {α κ : Type}

/-- Put a row in the place of the first one that matches. -/
def replace (p : α → Bool) (new : α) : List α → List α
  | [] => []
  | r :: rest => if p r then new :: rest else r :: replace p new rest

/-- Change every row that matches. -/
def update (p : α → Bool) (f : α → α) (rows : List α) : List α :=
  rows.map fun r => if p r then f r else r

/-- Drop every row that matches. -/
def delete (p : α → Bool) (rows : List α) : List α := rows.filter fun r => !p r

/-- No two rows have one key. -/
def Keyed (key : α → κ) (rows : List α) : Prop := (rows.map key).Nodup

/-! ### `replace` -/

theorem mem_replace {p : α → Bool} {new r : α} {rows : List α} (h : r ∈ replace p new rows) :
    r = new ∨ r ∈ rows := by
  induction rows with
  | nil => simp [replace] at h
  | cons head rest ih =>
    unfold replace at h
    split at h
    · exact (List.mem_cons.mp h).imp_right (List.mem_cons_of_mem _)
    · rcases List.mem_cons.mp h with rfl | h
      · exact Or.inr List.mem_cons_self
      · exact (ih h).imp_right (List.mem_cons_of_mem _)

/-- Rows outside the old and the new one are not affected. -/
theorem filter_replace {p q : α → Bool} {old new : α} {rows : List α}
    (found : rows.find? p = some old) (hold : q old = false) (hnew : q new = false) :
    (replace p new rows).filter q = rows.filter q := by
  induction rows with
  | nil => simp at found
  | cons head rest ih =>
    unfold replace
    by_cases hp : p head = true
    · rw [List.find?_cons_of_pos hp] at found
      cases found
      simp [hp, hold, hnew]
    · rw [List.find?_cons_of_neg hp] at found
      simp only [hp, Bool.false_eq_true, if_false, List.filter_cons, ih found]

/-- Erasing a row outside a selection does not affect the selection. -/
theorem filter_eraseP {p q : α → Bool} {old : α} {rows : List α}
    (found : rows.find? p = some old) (hold : q old = false) :
    (rows.eraseP p).filter q = rows.filter q := by
  induction rows with
  | nil => simp at found
  | cons head rest ih =>
    by_cases hp : p head = true
    · rw [List.find?_cons_of_pos hp] at found
      cases found
      simp [hp, hold]
    · rw [List.find?_cons_of_neg hp] at found
      rw [List.eraseP_cons_of_neg hp, List.filter_cons, List.filter_cons, ih found]

theorem map_replace_of_key {key : α → κ} {p : α → Bool} {old new : α} {rows : List α}
    (found : rows.find? p = some old) (same : key new = key old) :
    (replace p new rows).map key = rows.map key := by
  induction rows with
  | nil => simp at found
  | cons head rest ih =>
    unfold replace
    by_cases hp : p head = true
    · rw [List.find?_cons_of_pos hp] at found
      cases found
      simp [hp, same]
    · rw [List.find?_cons_of_neg hp] at found
      simp only [hp, Bool.false_eq_true, if_false, List.map_cons, ih found]

section Key

variable [DecidableEq κ] {key : α → κ} {k l : κ}

/-- The row of a key that `replace` wrote. -/
theorem find?_replace_self {new old : α} {rows : List α}
    (found : rows.find? (fun r => key r == k) = some old) (hnew : key new = k) :
    (replace (fun r => key r == k) new rows).find? (fun r => key r == k) = some new := by
  induction rows with
  | nil => simp at found
  | cons head rest ih =>
    unfold replace
    by_cases hp : (key head == k) = true
    · simp [hp, hnew]
    · have miss : (key head == k) = false := by simpa using hp
      rw [List.find?_cons, miss] at found
      rw [if_neg hp, List.find?_cons, miss]
      exact ih found

/-- The rows of the other keys are where they were. -/
theorem find?_replace_ne {new : α} {rows : List α} (hnew : key new = k) (other : l ≠ k) :
    (replace (fun r => key r == k) new rows).find? (fun r => key r == l) =
      rows.find? (fun r => key r == l) := by
  induction rows with
  | nil => rfl
  | cons head rest ih =>
    unfold replace
    by_cases hp : key head = k
    · rw [if_pos (by simp [hp]), List.find?_cons_of_neg (by simpa [hnew] using Ne.symm other),
        List.find?_cons_of_neg (by simpa [hp] using Ne.symm other)]
    · rw [if_neg (by simpa using hp), List.find?_cons, List.find?_cons, ih]

end Key

/-- Putting a row in its own place changes nothing. -/
theorem replace_of_find? {p : α → Bool} {r : α} {rows : List α} (found : rows.find? p = some r) :
    replace p r rows = rows := by
  induction rows with
  | nil => rfl
  | cons head rest ih =>
    unfold replace
    by_cases hp : p head = true
    · rw [List.find?_cons_of_pos hp] at found
      cases found
      rw [if_pos hp]
    · rw [List.find?_cons_of_neg hp] at found
      rw [if_neg hp, ih found]

/-! ### `update` and `delete` -/

/-- The row of a key an update changed. -/
theorem find?_update [BEq κ] [LawfulBEq κ] {key : α → κ} {k : κ} {f : α → α}
    (keep : ∀ r, key (f r) = key r) (rows : List α) :
    (update (fun r => key r == k) f rows).find? (fun r => key r == k) =
      (rows.find? fun r => key r == k).map f := by
  induction rows with
  | nil => rfl
  | cons head rest ih =>
    show List.find? _ ((if (key head == k) = true then f head else head) :: _) = _
    cases hit : key head == k with
    | true =>
      have moved : (key (f head) == k) = true := by rw [keep, hit]
      simp only [if_true, List.find?_cons, moved, hit, Option.map_some]
    | false =>
      simp only [Bool.false_eq_true, if_false, List.find?_cons, hit]
      exact ih

theorem mem_update {p : α → Bool} {f : α → α} {rows : List α} {r : α} :
    r ∈ update p f rows ↔ ∃ s ∈ rows, r = if p s then f s else s := by
  simp only [update, List.mem_map, eq_comm]

theorem mem_delete {p : α → Bool} {rows : List α} {r : α} :
    r ∈ delete p rows ↔ r ∈ rows ∧ p r = false := by
  simp [delete]

theorem map_update_of_key {key : α → κ} {p : α → Bool} {f : α → α}
    (keep : ∀ r, key (f r) = key r) (rows : List α) :
    (update p f rows).map key = rows.map key := by
  rw [update, List.map_map]
  apply List.map_congr_left
  intro r _
  simp only [Function.comp]
  split
  · exact keep r
  · rfl

theorem update_of_none {p : α → Bool} {f : α → α} {rows : List α} (h : ∀ r ∈ rows, p r = false) :
    update p f rows = rows := by
  induction rows with
  | nil => rfl
  | cons r rest ih =>
    have := ih fun s member => h s (List.mem_cons_of_mem _ member)
    unfold update at this ⊢
    rw [List.map_cons, this, h r List.mem_cons_self]
    rfl

theorem filter_delete_of_disjoint {p q : α → Bool} {rows : List α}
    (apart : ∀ r ∈ rows, q r = true → p r = false) :
    (delete p rows).filter q = rows.filter q := by
  rw [delete, List.filter_filter]
  apply List.filter_congr
  intro r member
  cases hq : q r with
  | false => simp
  | true => simp [apart r member hq]

theorem filter_update_of_disjoint {p q : α → Bool} {f : α → α} {rows : List α}
    (keep : ∀ r, q (f r) = q r) (apart : ∀ r ∈ rows, q r = true → p r = false) :
    (update p f rows).filter q = rows.filter q := by
  induction rows with
  | nil => rfl
  | cons r rest ih =>
    have later := ih fun s member => apart s (List.mem_cons_of_mem _ member)
    unfold update at later ⊢
    rw [List.map_cons, List.filter_cons, List.filter_cons, later]
    cases hq : q r with
    | true => simp [apart r List.mem_cons_self hq, hq]
    | false =>
      have : q (if p r = true then f r else r) = false := by
        split
        · rw [keep, hq]
        · exact hq
      simp [this]

theorem filter_append_of_disjoint {q : α → Bool} {rows new : List α}
    (apart : ∀ r ∈ new, q r = false) : (rows ++ new).filter q = rows.filter q := by
  have none_ : new.filter q = [] := by
    rw [List.filter_eq_nil_iff]
    intro r member
    rw [apart r member]
    decide
  rw [List.filter_append, none_, List.append_nil]

theorem delete_delete (p q : α → Bool) (rows : List α) :
    delete p (delete q rows) = delete (fun r => q r || p r) rows := by
  simp only [delete, List.filter_filter]
  apply List.filter_congr
  intro r _
  cases p r <;> cases q r <;> rfl

theorem delete_congr {p q : α → Bool} {rows : List α} (same : ∀ r ∈ rows, p r = q r) :
    delete p rows = delete q rows := by
  apply List.filter_congr
  intro r member
  rw [same r member]

theorem find?_delete {p q : α → Bool} {rows : List α}
    (apart : ∀ r ∈ rows, q r = true → p r = false) : (delete p rows).find? q = rows.find? q := by
  have := filter_delete_of_disjoint apart
  rw [← List.head?_filter, ← List.head?_filter, this]

/-- The rows that several sources contribute, one after the other, split again by the key that
    names their source. -/
theorem filter_flatMap_of_name [BEq κ] [LawfulBEq κ] {ι : Type*} {key : α → κ} {name : ι → κ}
    {f : ι → List α} (own : ∀ i, ∀ r ∈ f i, key r = name i) {i : ι} :
    ∀ {is : List ι}, (is.map name).Nodup → i ∈ is →
      (is.flatMap f).filter (key · == name i) = f i
  | head :: rest, nodup, member => by
      obtain ⟨fresh, nodup⟩ := List.nodup_cons.mp nodup
      rw [List.flatMap_cons, List.filter_append]
      rcases List.mem_cons.mp member with rfl | member
      · have mine : (f i).filter (key · == name i) = f i :=
          List.filter_eq_self.mpr fun r hr => beq_iff_eq.mpr (own i r hr)
        have others : (rest.flatMap f).filter (key · == name i) = [] := by
          rw [List.filter_eq_nil_iff]
          intro r later hit
          obtain ⟨other, source, hr⟩ := List.mem_flatMap.mp later
          rw [own other r hr, beq_iff_eq] at hit
          exact fresh (List.mem_map.mpr ⟨other, source, hit⟩)
        rw [mine, others, List.append_nil]
      · have none_ : (f head).filter (key · == name i) = [] := by
          rw [List.filter_eq_nil_iff]
          intro r hr hit
          rw [own head r hr, beq_iff_eq] at hit
          exact fresh (List.mem_map.mpr ⟨i, member, hit.symm⟩)
        rw [none_, List.nil_append]
        exact filter_flatMap_of_name own nodup member

/-- The rows that several identifiers contribute, split again by identifier. -/
theorem filter_flatMap_of_key [BEq κ] [LawfulBEq κ] {key : α → κ} {f : κ → List α}
    (own : ∀ id, ∀ r ∈ f id, key r = id) {id : κ} {ids : List κ} (nodup : ids.Nodup)
    (member : id ∈ ids) : (ids.flatMap f).filter (key · == id) = f id :=
  filter_flatMap_of_name own (by rw [List.map_id']; exact nodup) member

/-- The rows of several keys are as many as the rows of each of them together. -/
theorem length_filter_contains [BEq κ] [LawfulBEq κ] (key : α → κ) (rows : List α) :
    ∀ {ids : List κ}, ids.Nodup → (rows.filter fun r => ids.contains (key r)).length =
      (ids.map fun id => (rows.filter (key · == id)).length).sum
  | [], _ => by simp
  | id :: rest, nodup => by
      obtain ⟨fresh, nodup⟩ := List.nodup_cons.mp nodup
      rw [List.map_cons, List.sum_cons, ← length_filter_contains key rows nodup]
      simp only [← List.countP_eq_length_filter]
      induction rows with
      | nil => rfl
      | cons r later ih =>
        have here : (id :: rest).contains (key r) = (key r == id || rest.contains (key r)) :=
          List.contains_cons
        rw [List.countP_cons, List.countP_cons, List.countP_cons, ih, here]
        by_cases first : key r = id
        · have absent : rest.contains (key r) = false := by simpa [first] using fresh
          rw [absent, beq_iff_eq.mpr first]
          simp only [Bool.or_false, if_true, Bool.false_eq_true, if_false]
          omega
        · rw [beq_eq_false_iff_ne.mpr first, Bool.false_or]
          simp only [Bool.false_eq_true, if_false]
          omega

/-- What a delete leaves and what it takes. -/
theorem length_delete (p : α → Bool) (rows : List α) :
    rows.length = (delete p rows).length + (rows.filter p).length := by
  unfold delete
  have := List.length_eq_length_filter_add (l := rows) p
  omega

/-- How many rows satisfy a condition once one of them is another one. -/
theorem countP_set_add (p : α → Bool) {old : α} (new : α) : ∀ {rows : List α} {k : Nat},
    rows[k]? = some old →
      (rows.set k new).countP p + (p old).toNat = rows.countP p + (p new).toNat
  | [], _, h => nomatch h
  | head :: rest, 0, h => by
      have same : head = old := Option.some.inj h
      have one (r : α) : (if p r = true then 1 else 0) = (p r).toNat := by cases p r <;> rfl
      rw [List.set_cons_zero, List.countP_cons, List.countP_cons, one, one, same]
      omega
  | head :: rest, k + 1, h => by
      have later : (rest.set k new).countP p + (p old).toNat = rest.countP p + (p new).toNat :=
        countP_set_add p new h
      rw [List.set_cons_succ, List.countP_cons, List.countP_cons]
      omega

/-! ### `Keyed` -/

theorem Keyed.append {key : α → κ} {rows : List α} {new : α} (h : Keyed key rows)
    (fresh : ∀ r ∈ rows, key r ≠ key new) : Keyed key (rows ++ [new]) := by
  simp only [Keyed, List.map_append, List.map_cons, List.map_nil]
  refine List.nodup_append.mpr ⟨h, List.nodup_singleton _, ?_⟩
  intro a ha b hb
  obtain ⟨r, hr, rfl⟩ := List.mem_map.mp ha
  rw [List.mem_singleton.mp hb]
  exact fresh r hr

theorem Keyed.update {key : α → κ} {p : α → Bool} {f : α → α} {rows : List α}
    (h : Keyed key rows) (keep : ∀ r, key (f r) = key r) : Keyed key (update p f rows) := by
  unfold Keyed
  rw [map_update_of_key keep]
  exact h

theorem Keyed.delete {key : α → κ} {p : α → Bool} {rows : List α} (h : Keyed key rows) :
    Keyed key (delete p rows) :=
  h.sublist (List.filter_sublist.map key)

theorem Keyed.eq_of_mem {key : α → κ} {rows : List α} (h : Keyed key rows) {r s : α}
    (hr : r ∈ rows) (hs : s ∈ rows) (same : key r = key s) : r = s :=
  List.inj_on_of_nodup_map h hr hs same

/-- The row a unique key finds is the one that carries it. -/
theorem Keyed.find?_eq [BEq κ] [LawfulBEq κ] {key : α → κ} {rows : List α} (h : Keyed key rows) {r : α}
    (member : r ∈ rows) : rows.find? (fun s => key s == key r) = some r := by
  cases found : rows.find? (fun s => key s == key r) with
  | none =>
    have := List.find?_eq_none.mp found r member
    simp at this
  | some s =>
    have same : key s = key r := by simpa using List.find?_some found
    rw [h.eq_of_mem (List.mem_of_find?_eq_some found) member same]

end Table

end Lib
