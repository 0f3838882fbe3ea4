import Mathlib.Data.List.Nodup

/-!
# Ordered dictionaries

Python's `OrderedDict`: entries in the order of their keys, each key once.
-/

namespace Lib

structure OrderedDict (κ α : Type) where
  entries : List (κ × α)
  distinct : (entries.map Prod.fst).Nodup

namespace OrderedDict

variable {κ α : Type}

def empty : OrderedDict κ α := ⟨[], List.nodup_nil⟩

def keys (d : OrderedDict κ α) : List κ := d.entries.map Prod.fst

/-- `popitem(last=False)`, where there is an item. -/
def popFirst (d : OrderedDict κ α) : OrderedDict κ α where
  entries := d.entries.tail
  distinct := by
    rw [List.map_tail]
    exact d.distinct.sublist (List.tail_sublist _)

/-- `popitem(last=False)` until no more than `n` items are left. -/
def trim (d : OrderedDict κ α) (n : Nat) : OrderedDict κ α where
  entries := d.entries.drop (d.entries.length - n)
  distinct := by
    rw [List.map_drop]
    exact d.distinct.sublist (List.drop_sublist _ _)

variable [DecidableEq κ]

/-- `d.get(key)`. -/
def get? (d : OrderedDict κ α) (key : κ) : Option α := d.entries.lookup key

/-- `d.pop(key, None)`. -/
def erase (d : OrderedDict κ α) (key : κ) : OrderedDict κ α where
  entries := d.entries.filter fun e => e.1 ≠ key
  distinct := d.distinct.sublist (List.filter_sublist.map _)

theorem fst_update (l : List (κ × α)) (key : κ) (value : α) :
    (l.map fun e => if e.1 = key then (key, value) else e).map Prod.fst = l.map Prod.fst := by
  rw [List.map_map]
  refine List.map_congr_left fun e _ => ?_
  by_cases same : e.1 = key
  · simp [same]
  · simp [same]

/-- `d[key] = value`: a key that is there keeps its place. -/
def set (d : OrderedDict κ α) (key : κ) (value : α) : OrderedDict κ α :=
  if present : key ∈ d.keys then
    { entries := d.entries.map fun e => if e.1 = key then (key, value) else e
      distinct := by
        rw [fst_update]
        exact d.distinct }
  else
    { entries := d.entries ++ [(key, value)]
      distinct := by
        rw [List.map_append]
        exact List.nodup_append.mpr ⟨d.distinct, List.nodup_singleton _, fun a old b new => by
          rw [List.mem_singleton.mp new]
          rintro rfl
          exact present old⟩ }

/-- `d[key] = value; d.move_to_end(key)`. -/
def push (d : OrderedDict κ α) (key : κ) (value : α) : OrderedDict κ α :=
  (d.erase key).set key value

theorem mem_set {d : OrderedDict κ α} {key : κ} {value : α} {e : κ × α}
    (h : e ∈ (d.set key value).entries) : e = (key, value) ∨ e ∈ d.entries := by
  unfold set at h
  by_cases present : key ∈ d.keys
  · rw [dif_pos present] at h
    obtain ⟨old, member, rfl⟩ := List.mem_map.mp h
    by_cases same : old.1 = key
    · exact .inl (if_pos same)
    · rw [if_neg same]
      exact .inr member
  · rw [dif_neg present] at h
    rcases List.mem_append.mp h with member | new
    · exact .inr member
    · exact .inl (List.mem_singleton.mp new)

theorem length_set_of_mem {d : OrderedDict κ α} {key : κ} {value : α} (h : key ∈ d.keys) :
    (d.set key value).entries.length = d.entries.length := by
  unfold set
  rw [dif_pos h]
  exact List.length_map _

theorem length_set_le (d : OrderedDict κ α) (key : κ) (value : α) :
    (d.set key value).entries.length ≤ d.entries.length + 1 := by
  by_cases present : key ∈ d.keys
  · rw [length_set_of_mem present]
    omega
  · unfold set
    rw [dif_neg present]
    simp

theorem mem_of_get? {d : OrderedDict κ α} {key : κ} {value : α} (h : d.get? key = some value) :
    (key, value) ∈ d.entries := by
  obtain ⟨before, after, found, _⟩ := List.lookup_eq_some_iff.mp h
  rw [found]
  simp

theorem lookup_update (l : List (κ × α)) (key other : κ) (value : α) (present : key ∈ l.map Prod.fst) :
    (l.map fun e => if e.1 = key then (key, value) else e).lookup other =
      if other = key then some value else l.lookup other := by
  induction l with
  | nil => simp at present
  | cons e l ih =>
      obtain ⟨k, v⟩ := e
      rw [List.map_cons]
      dsimp only
      by_cases here : k = key
      · subst here
        rw [if_pos rfl, List.lookup_cons, List.lookup_cons]
        by_cases same : other = k
        · simp [same]
        · rw [if_neg same, beq_eq_false_iff_ne.mpr same]
          dsimp only
          by_cases later : k ∈ l.map Prod.fst
          · rw [ih later, if_neg same]
          · have untouched : (l.map fun e => if e.1 = k then (k, value) else e) = l := by
              refine (List.map_congr_left fun e member => ?_).trans (List.map_id l)
              rw [if_neg fun eq => later (List.mem_map.mpr ⟨e, member, eq⟩)]
              rfl
            rw [untouched]
      · have later : key ∈ l.map Prod.fst := by
          rw [List.map_cons] at present
          exact (List.mem_cons.mp present).resolve_left fun eq => here eq.symm
        rw [if_neg here, List.lookup_cons, List.lookup_cons, ih later]
        by_cases same : other = k
        · subst same
          simp [here]
        · rw [beq_eq_false_iff_ne.mpr same]

theorem get?_set (d : OrderedDict κ α) (key other : κ) (value : α) :
    (d.set key value).get? other = if other = key then some value else d.get? other := by
  unfold set get?
  by_cases present : key ∈ d.keys
  · rw [dif_pos present]
    exact lookup_update d.entries key other value present
  · rw [dif_neg present]
    dsimp only
    rw [List.lookup_append]
    by_cases same : other = key
    · subst same
      have absent : d.entries.lookup other = none := by
        rw [List.lookup_eq_none_iff]
        intro e member
        simp only [bne_iff_ne, ne_eq]
        rintro rfl
        exact present (List.mem_map_of_mem member)
      simp [absent]
    · have other_ : [(key, value)].lookup other = none := by
        simp [List.lookup_cons, beq_eq_false_iff_ne.mpr same]
      simp [other_, same]

@[simp] theorem get?_set_self (d : OrderedDict κ α) (key : κ) (value : α) :
    (d.set key value).get? key = some value := by
  rw [get?_set, if_pos rfl]

theorem get?_set_of_ne (d : OrderedDict κ α) {key other : κ} (value : α) (ne : other ≠ key) :
    (d.set key value).get? other = d.get? other := by
  rw [get?_set, if_neg ne]

theorem get?_eq_some {d : OrderedDict κ α} {key : κ} {value : α} :
    d.get? key = some value ↔ (key, value) ∈ d.entries := by
  refine ⟨mem_of_get?, fun member => ?_⟩
  cases found : d.get? key with
  | none =>
    have := List.lookup_eq_none_iff.mp found (key, value) member
    simp at this
  | some other =>
    have same := List.inj_on_of_nodup_map d.distinct (mem_of_get? found) member rfl
    cases same
    rfl

theorem get?_isSome {d : OrderedDict κ α} {key : κ} : (d.get? key).isSome ↔ key ∈ d.keys := by
  rw [Option.isSome_iff_exists, keys, List.mem_map]
  constructor
  · rintro ⟨value, found⟩
    exact ⟨(key, value), mem_of_get? found, rfl⟩
  · rintro ⟨⟨_, value⟩, member, rfl⟩
    exact ⟨value, get?_eq_some.mpr member⟩

/-- A new key comes last. -/
theorem entries_set {d : OrderedDict κ α} {key : κ} (value : α) (fresh : key ∉ d.keys) :
    (d.set key value).entries = d.entries ++ [(key, value)] := by
  unfold set
  rw [dif_neg fresh]

end OrderedDict

end Lib
