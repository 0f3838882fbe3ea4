import Mathlib.Data.List.Chain
import Mathlib.Tactic.Common

/-!
# Clusters of neighbours

A list cut into groups of elements next to each other, each element of a group being the same as its
first one (`clusters`). A list has one such grouping (`Clustering.eq_clusters`), so it can be cut after any
group (`clusters_drop`), and the groups of two lists are those of the lists one after the other where
the last group of the first does not take the first element of the second (`clusters_append`).
-/

namespace Lib

/-- Elements next to each other: the first and those after it. -/
structure Cluster (α : Type) where
  first : α
  more : List α

def Cluster.items {α : Type} (g : Cluster α) : List α := g.first :: g.more

section Clusters

variable {α : Type} {same : α → α → Bool} {gs hs : List (Cluster α)} {l m : List α} {g : Cluster α}

/-- The groups from one that is not yet complete. -/
def clusterFrom (same : α → α → Bool) : Cluster α → List α → List (Cluster α)
  | g, [] => [g]
  | g, x :: rest =>
      if same g.first x then clusterFrom same ⟨g.first, g.more ++ [x]⟩ rest
      else g :: clusterFrom same ⟨x, []⟩ rest

/-- The groups of a list. -/
def clusters (same : α → α → Bool) : List α → List (Cluster α)
  | [] => []
  | x :: rest => clusterFrom same ⟨x, []⟩ rest

/-- A grouping of a list: each group takes what is the same as its first element, and stops where an
    element is not. -/
structure Clustering (same : α → α → Bool) (gs : List (Cluster α)) (l : List α) : Prop where
  items : gs.flatMap Cluster.items = l
  whole : ∀ g ∈ gs, ∀ x ∈ g.more, same g.first x = true
  apart : gs.IsChain fun g h => same g.first h.first = false

theorem clusterFrom_head (same : α → α → Bool) (g : Cluster α) (l : List α) :
    ∃ more rest, clusterFrom same g l = ⟨g.first, more⟩ :: rest := by
  induction l generalizing g with
  | nil => exact ⟨g.more, [], rfl⟩
  | cons x l ih =>
    unfold clusterFrom
    by_cases joins : same g.first x = true
    · rw [if_pos joins]
      exact ih ⟨g.first, g.more ++ [x]⟩
    · rw [if_neg joins]
      exact ⟨g.more, _, rfl⟩

theorem clusterFrom_clustering (whole : ∀ x ∈ g.more, same g.first x = true) (l : List α) :
    Clustering same (clusterFrom same g l) (g.items ++ l) := by
  induction l generalizing g with
  | nil => exact ⟨by simp [clusterFrom], by simpa [clusterFrom] using whole, .singleton g⟩
  | cons x l ih =>
    unfold clusterFrom
    by_cases joins : same g.first x = true
    · rw [if_pos joins]
      have later := @ih ⟨g.first, g.more ++ [x]⟩ (by simpa [or_imp, forall_and] using ⟨whole, joins⟩)
      have items : Cluster.items ⟨g.first, g.more ++ [x]⟩ ++ l = g.items ++ x :: l := by
        simp [Cluster.items]
      rwa [items] at later
    · rw [if_neg joins]
      have later := @ih ⟨x, []⟩ (by simp)
      refine ⟨?_, ?_, ?_⟩
      · rw [List.flatMap_cons, later.items]
        rfl
      · rw [List.forall_mem_cons]
        exact ⟨whole, later.whole⟩
      · obtain ⟨more, rest, head⟩ := clusterFrom_head same ⟨x, []⟩ l
        have chain := later.apart
        rw [head] at chain ⊢
        exact .cons_cons (by simpa using joins) chain

theorem clusters_clustering (same : α → α → Bool) (l : List α) : Clustering same (clusters same l) l := by
  cases l with
  | nil => exact ⟨rfl, nofun, .nil⟩
  | cons x l => exact clusterFrom_clustering (by simp) l

/-- What a group takes, it takes wherever it has got to. -/
theorem clusterFrom_append (whole : ∀ x ∈ m, same g.first x = true) :
    clusterFrom same g (m ++ l) = clusterFrom same ⟨g.first, g.more ++ m⟩ l := by
  induction m generalizing g with
  | nil => simp
  | cons x m ih =>
    rw [List.cons_append, clusterFrom, if_pos (whole x List.mem_cons_self)]
    rw [@ih ⟨g.first, g.more ++ [x]⟩ fun y member => whole y (List.mem_cons_of_mem _ member)]
    simp

/-- A list has one grouping. -/
theorem Clustering.eq_clusters (h : Clustering same gs l) : gs = clusters same l := by
  obtain ⟨rfl, whole, apart⟩ := h
  induction gs with
  | nil => rfl
  | cons g rest ih =>
    have here : clusters same ((g :: rest).flatMap Cluster.items) =
        clusterFrom same g (rest.flatMap Cluster.items) := by
      rw [List.flatMap_cons]
      show clusterFrom same ⟨g.first, []⟩ (g.more ++ _) = _
      exact clusterFrom_append (g := ⟨g.first, []⟩) (whole g List.mem_cons_self)
    have later := ih (fun g' member => whole g' (List.mem_cons_of_mem _ member)) apart.tail
    rw [here]
    cases rest with
    | nil => rfl
    | cons h rest =>
      have stops : same g.first h.first = false := by
        cases apart with
        | cons_cons first _ => exact first
      rw [List.flatMap_cons]
      show _ = clusterFrom same g (h.first :: (h.more ++ _))
      rw [clusterFrom, if_neg (by simp [stops]), later, List.flatMap_cons]
      rfl

/-- The groups after the first ones are those of what is left. -/
theorem clusters_drop (n : Nat) :
    clusters same (((clusters same l).drop n).flatMap Cluster.items) = (clusters same l).drop n := by
  have all := clusters_clustering same l
  exact (Clustering.eq_clusters ⟨rfl, fun g member => all.whole g (List.mem_of_mem_drop member),
    all.apart.drop n⟩).symm

/-- The first groups are those of what they hold. -/
theorem clusters_take (n : Nat) :
    clusters same (((clusters same l).take n).flatMap Cluster.items) = (clusters same l).take n := by
  have all := clusters_clustering same l
  exact (Clustering.eq_clusters ⟨rfl, fun g member => all.whole g (List.mem_of_mem_take member),
    all.apart.take n⟩).symm

/-- A list is what its first groups hold and what the others hold. -/
theorem clusters_split (same : α → α → Bool) (l : List α) (n : Nat) :
    ((clusters same l).take n).flatMap Cluster.items ++ ((clusters same l).drop n).flatMap Cluster.items = l := by
  rw [← List.flatMap_append, List.take_append_drop, (clusters_clustering same l).items]

/-- Where the last group of a list does not take the first element of the next, the groups stay. -/
theorem clusters_append
    (cut : ∀ g ∈ (clusters same l).getLast?, ∀ h ∈ (clusters same m).head?, same g.first h.first = false) :
    clusters same (l ++ m) = clusters same l ++ clusters same m := by
  have left := clusters_clustering same l
  have right := clusters_clustering same m
  refine (Clustering.eq_clusters ⟨?_, fun g member => ?_, ?_⟩).symm
  · rw [List.flatMap_append, left.items, right.items]
  · rcases List.mem_append.mp member with first | second
    · exact left.whole g first
    · exact right.whole g second
  · exact left.apart.append right.apart cut

/-- An element of a list is in one of its groups. -/
theorem mem_clusters (same : α → α → Bool) {x : α} (h : x ∈ l) : ∃ g ∈ clusters same l, x ∈ g.items := by
  rw [← (clusters_clustering same l).items] at h
  exact List.mem_flatMap.mp h

/-- A group is a piece of its list. -/
theorem clusters_piece (h : g ∈ clusters same l) : ∃ before after, l = before ++ g.items ++ after := by
  obtain ⟨before, after, split⟩ := List.append_of_mem h
  refine ⟨before.flatMap Cluster.items, after.flatMap Cluster.items, ?_⟩
  have items := (clusters_clustering same l).items
  rw [split, List.flatMap_append, List.flatMap_cons] at items
  rw [← items, List.append_assoc]

end Clusters

end Lib
