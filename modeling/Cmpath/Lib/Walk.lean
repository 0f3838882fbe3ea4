import Mathlib.Data.List.Basic

/-!
# Bounded walks

A breadth-first walk of a graph, given by the successors of each node, for a number of hops. It
meets exactly the nodes that many steps away or fewer (`mem_walk`).
-/

namespace Lib

namespace Walk

variable {α : Type}

/-- `node` is at most n steps away from `root`. -/
def Within (next : α → List α) (root : α) : Nat → α → Prop
  | 0, node => node = root
  | n + 1, node => Within next root n node ∨ ∃ mid, Within next root n mid ∧ node ∈ next mid

section Hops

variable [DecidableEq α]

/-- Meet the nodes of a list: those met so far and those first met in this hop grow together. -/
def meet (seen fresh : List α) : List α → List α × List α
  | [] => (seen, fresh)
  | node :: rest =>
      if node ∈ seen then meet seen fresh rest else meet (seen ++ [node]) (fresh ++ [node]) rest

/-- One hop: the successors of every node in front. -/
def hop (next : α → List α) (seen fresh : List α) : List α → List α × List α
  | [] => (seen, fresh)
  | node :: front =>
      let met := meet seen fresh (next node)
      hop next met.1 met.2 front

/-- The remaining hops. -/
def hops (next : α → List α) : Nat → List α → List α → List α
  | 0, seen, _ => seen
  | n + 1, seen, front =>
      let met := hop next seen [] front
      hops next n met.1 met.2

/-- The walk of n hops. -/
def walk (next : α → List α) (n : Nat) (root : α) : List α := hops next n [root] [root]

end Hops

variable {next : α → List α} {root : α}

theorem Within.mono {m n : Nat} {node : α} (h : Within next root m node) (le : m ≤ n) :
    Within next root n node := by
  induction le with
  | refl => exact h
  | step _ ih => exact Or.inl ih

theorem Within.start (n : Nat) : Within next root n root :=
  Within.mono (m := 0) rfl (Nat.zero_le n)

/-- The walk so far, k hops from the root: what it has met, and where it goes on. -/
structure Front (next : α → List α) (root : α) (k : Nat) (seen front : List α) : Prop where
  met : ∀ x, x ∈ seen ↔ Within next root k x
  ahead : ∀ x ∈ front, x ∈ seen
  closed : ∀ x ∈ seen, x ∉ front → ∀ y ∈ next x, y ∈ seen

theorem Front.start : Front next root 0 [root] [root] := by
  refine ⟨fun x => List.mem_singleton, fun x member => member, ?_⟩
  intro x member absent
  exact absurd member absent

variable [DecidableEq α]

/-- What a hop adds is new and it is all of the list. -/
theorem mem_meet {seen fresh nodes : List α} {x : α} :
    (x ∈ (meet seen fresh nodes).1 ↔ x ∈ seen ∨ x ∈ nodes) ∧
      (x ∈ (meet seen fresh nodes).2 ↔ x ∈ fresh ∨ (x ∈ nodes ∧ x ∉ seen)) := by
  induction nodes generalizing seen fresh with
  | nil => simp [meet]
  | cons node rest ih =>
    unfold meet
    by_cases known : node ∈ seen
    · rw [if_pos known, ih.1, ih.2]
      constructor
      · constructor
        · rintro (old | later)
          · exact Or.inl old
          · exact Or.inr (List.mem_cons_of_mem _ later)
        · rintro (old | later)
          · exact Or.inl old
          · rcases List.mem_cons.mp later with rfl | later
            · exact Or.inl known
            · exact Or.inr later
      · constructor
        · rintro (old | ⟨later, new⟩)
          · exact Or.inl old
          · exact Or.inr ⟨List.mem_cons_of_mem _ later, new⟩
        · rintro (old | ⟨later, new⟩)
          · exact Or.inl old
          · rcases List.mem_cons.mp later with rfl | later
            · exact absurd known new
            · exact Or.inr ⟨later, new⟩
    · rw [if_neg known, ih.1, ih.2]
      simp only [List.mem_append, List.mem_cons, not_or]
      constructor
      · tauto
      · by_cases same : x = node
        · subst same
          tauto
        · tauto

theorem mem_hop {seen fresh front : List α} {x : α} :
    (x ∈ (hop next seen fresh front).1 ↔ x ∈ seen ∨ ∃ node ∈ front, x ∈ next node) ∧
      (x ∈ (hop next seen fresh front).2 ↔
        x ∈ fresh ∨ ((∃ node ∈ front, x ∈ next node) ∧ x ∉ seen)) := by
  induction front generalizing seen fresh with
  | nil => simp [hop]
  | cons node front ih =>
    unfold hop
    rw [ih.1, ih.2, mem_meet.1, mem_meet.2]
    simp only [List.mem_cons, exists_eq_or_imp]
    constructor <;> tauto

theorem Front.hop {k : Nat} {seen front : List α} (h : Front next root k seen front) :
    Front next root (k + 1) (Walk.hop next seen [] front).1 (Walk.hop next seen [] front).2 := by
  have met : ∀ x, x ∈ (Walk.hop next seen [] front).1 ↔ Within next root (k + 1) x := by
    intro x
    rw [mem_hop.1, h.met]
    constructor
    · rintro (old | ⟨node, member, edge⟩)
      · exact Or.inl old
      · exact Or.inr ⟨node, (h.met node).mp (h.ahead node member), edge⟩
    · rintro (old | ⟨mid, near, edge⟩)
      · exact Or.inl old
      · have known := (h.met mid).mpr near
        by_cases ahead : mid ∈ front
        · exact Or.inr ⟨mid, ahead, edge⟩
        · exact Or.inl ((h.met x).mp (h.closed mid known ahead x edge))
  refine ⟨met, ?_, ?_⟩
  · intro x member
    rw [mem_hop.1]
    rcases mem_hop.2.mp member with none_ | ⟨edge, _⟩
    · exact absurd none_ List.not_mem_nil
    · exact Or.inr edge
  · intro x member behind y edge
    rw [mem_hop.1]
    have old : x ∈ seen := by
      rcases mem_hop.1.mp member with old | new
      · exact old
      · by_contra unseen
        exact behind (mem_hop.2.mpr (Or.inr ⟨new, unseen⟩))
    by_cases ahead : x ∈ front
    · exact Or.inr ⟨x, ahead, edge⟩
    · exact Or.inl (h.closed x old ahead y edge)

theorem Front.hops {n k : Nat} {seen front : List α} (h : Front next root k seen front) (x : α) :
    x ∈ Walk.hops next n seen front ↔ Within next root (k + n) x := by
  induction n generalizing k seen front with
  | zero => exact h.met x
  | succ n ih =>
    show x ∈ Walk.hops next n _ _ ↔ _
    rw [ih h.hop, Nat.add_right_comm, Nat.add_assoc]

/-! ## Rings

The walk in order: the root, then the ring of each hop, that is what the successors of the ring
before it add, each node where it comes first. -/

/-- The elements of a list that are not seen yet, each where it comes first. -/
def firsts (seen : List α) : List α → List α
  | [] => []
  | x :: rest => if x ∈ seen then firsts seen rest else x :: firsts (seen ++ [x]) rest

/-- What the walk has met after k hops, and the ring of the last of them. -/
def rings (next : α → List α) (root : α) : Nat → List α × List α
  | 0 => ([root], [root])
  | k + 1 =>
      let before := rings next root k
      let ring := firsts before.1 (before.2.flatMap next)
      (before.1 ++ ring, ring)

theorem mem_firsts {seen l : List α} {x : α} : x ∈ firsts seen l ↔ x ∈ l ∧ x ∉ seen := by
  induction l generalizing seen with
  | nil => simp [firsts]
  | cons y rest ih =>
    unfold firsts
    by_cases known : y ∈ seen
    · rw [if_pos known, ih, List.mem_cons]
      constructor
      · rintro ⟨later, new⟩
        exact ⟨Or.inr later, new⟩
      · rintro ⟨rfl | later, new⟩
        · exact absurd known new
        · exact ⟨later, new⟩
    · rw [if_neg known, List.mem_cons, ih, List.mem_cons, List.mem_append, List.mem_singleton]
      by_cases same : x = y
      · simp [same, known]
      · simp [same]

theorem firsts_cons_old {seen rest : List α} {x : α} (known : x ∈ seen) :
    firsts seen (x :: rest) = firsts seen rest :=
  if_pos known

theorem firsts_cons_new {seen rest : List α} {x : α} (new : x ∉ seen) :
    firsts seen (x :: rest) = x :: firsts (seen ++ [x]) rest :=
  if_neg new

theorem nodup_firsts (seen l : List α) : (firsts seen l).Nodup := by
  induction l generalizing seen with
  | nil => exact List.nodup_nil
  | cons y rest ih =>
    unfold firsts
    by_cases known : y ∈ seen
    · rw [if_pos known]
      exact ih seen
    · rw [if_neg known, List.nodup_cons, mem_firsts]
      refine ⟨fun again => again.2 ?_, ih _⟩
      exact List.mem_append_right _ (List.mem_singleton_self y)

theorem firsts_append (seen a b : List α) :
    firsts seen (a ++ b) = firsts seen a ++ firsts (seen ++ firsts seen a) b := by
  induction a generalizing seen with
  | nil => simp [firsts]
  | cons y rest ih =>
    rw [List.cons_append]
    by_cases known : y ∈ seen
    · rw [firsts_cons_old known, firsts_cons_old known]
      exact ih seen
    · rw [firsts_cons_new known, firsts_cons_new known, ih, List.cons_append, List.append_assoc,
        List.singleton_append]

theorem meet_eq (seen fresh nodes : List α) :
    meet seen fresh nodes = (seen ++ firsts seen nodes, fresh ++ firsts seen nodes) := by
  induction nodes generalizing seen fresh with
  | nil => simp [meet, firsts]
  | cons y rest ih =>
    unfold meet firsts
    by_cases known : y ∈ seen
    · rw [if_pos known, if_pos known, ih]
    · rw [if_neg known, if_neg known, ih, List.append_assoc, List.append_assoc,
        List.singleton_append]

theorem hop_eq (seen fresh front : List α) :
    hop next seen fresh front =
      (seen ++ firsts seen (front.flatMap next), fresh ++ firsts seen (front.flatMap next)) := by
  induction front generalizing seen fresh with
  | nil => simp [hop, firsts]
  | cons node rest ih =>
    unfold hop
    dsimp only
    rw [meet_eq, ih, List.flatMap_cons, firsts_append]
    simp only [List.append_assoc]

/-- The walk goes on from a ring to the next one. -/
theorem hops_rings (n k : Nat) :
    hops next n (rings next root k).1 (rings next root k).2 = (rings next root (k + n)).1 := by
  induction n generalizing k with
  | zero => rfl
  | succ n ih =>
    unfold hops
    rw [hop_eq, List.nil_append]
    have later := ih (k + 1)
    rw [Nat.add_right_comm, Nat.add_assoc] at later
    exact later

/-- The walk meets the nodes ring by ring. -/
theorem walk_eq_rings (n : Nat) : walk next n root = (rings next root n).1 := by
  have walked := @hops_rings α next root _ n 0
  rw [Nat.zero_add] at walked
  exact walked

theorem mem_rings {k : Nat} {x : α} : x ∈ (rings next root k).1 ↔ Within next root k x := by
  have reached : x ∈ Walk.hops next k [root] [root] ↔ Within next root (0 + k) x :=
    Front.start.hops x
  have walked := @walk_eq_rings α next root _ k
  rw [Nat.zero_add] at reached
  rw [← walked]
  exact reached

/-- A node is in the ring of the hop it is that many steps away, and in no other. -/
theorem mem_ring {k : Nat} {x : α} :
    x ∈ (rings next root (k + 1)).2 ↔ Within next root (k + 1) x ∧ ¬ Within next root k x := by
  rw [← mem_rings, ← mem_rings]
  show x ∈ firsts _ _ ↔ x ∈ _ ++ firsts _ _ ∧ _
  constructor
  · intro member
    exact ⟨List.mem_append_right _ member, (mem_firsts.mp member).2⟩
  · rintro ⟨member, new⟩
    rcases List.mem_append.mp member with old | member
    · exact absurd old new
    · exact member

theorem ring_met {k : Nat} : ∀ x ∈ (rings next root k).2, x ∈ (rings next root k).1 := by
  cases k with
  | zero => exact fun x member => member
  | succ k => exact fun x member => List.mem_append_right _ member

theorem nodup_rings (k : Nat) : (rings next root k).1.Nodup := by
  induction k with
  | zero => exact List.nodup_cons.mpr ⟨List.not_mem_nil, List.nodup_nil⟩
  | succ k ih =>
    refine List.nodup_append.mpr ⟨ih, nodup_firsts _ _, ?_⟩
    rintro x old y new rfl
    exact (mem_firsts.mp new).2 old

/-- What the walk has met is the rings so far. -/
theorem rings_flatMap (k : Nat) :
    (List.range (k + 1)).flatMap (fun j => (rings next root j).2) = (rings next root k).1 := by
  induction k with
  | zero => rfl
  | succ k ih =>
    rw [List.range_succ, List.flatMap_append, ih, List.flatMap_singleton]
    rfl

/-- The successors of the nodes the last hop does not reach do not matter. -/
theorem rings_congr {next' : α → List α} {n : Nat}
    (same : ∀ x, Within next root n x → next' x = next x) {k : Nat} (le : k ≤ n + 1) :
    rings next' root k = rings next root k := by
  induction k with
  | zero => rfl
  | succ k ih =>
    unfold rings
    rw [ih (Nat.le_of_succ_le le)]
    have edges : (rings next root k).2.flatMap next' = (rings next root k).2.flatMap next := by
      refine List.flatMap_congr fun x member => same x ?_
      exact (mem_rings.mp (ring_met x member)).mono (Nat.le_of_succ_le_succ le)
    dsimp only
    rw [edges]

theorem walk_congr {next' : α → List α} {n : Nat}
    (same : ∀ x, Within next root n x → next' x = next x) :
    walk next' (n + 1) root = walk next (n + 1) root := by
  rw [walk_eq_rings, walk_eq_rings, rings_congr same (Nat.le_refl _)]

/-- A walk with nothing in front meets nothing more. -/
theorem hops_nil (n : Nat) (seen : List α) : hops next n seen [] = seen := by
  induction n with
  | zero => rfl
  | succ n ih => exact ih

/-- A walk of n hops meets the nodes at most n steps away. -/
theorem mem_walk {n : Nat} {x : α} : x ∈ walk next n root ↔ Within next root n x := by
  have reached : x ∈ Walk.hops next n [root] [root] ↔ Within next root (0 + n) x :=
    Front.start.hops x
  rw [Nat.zero_add] at reached
  exact reached

end Walk

end Lib
