import Cmpath.Autosave.Capture
import Cmpath.Lib.Clusters

/-!
# Messages as groups

The messages of a transcript are the groups of its fragments (`coalesce_eq`), and their lines only
grow. A pass that begins after a line reads the fragments after it (`wireEvents_after`), so it begins
with a whole group where the line is the last one of a group (`coalesce_after`).
-/

namespace Cmpath
open Lib

namespace Autosave

variable {py : Python}

/-! ## Messages -/

/-- Two fragments of one message. -/
def oneMessage (f g : Fragment) : Bool := f.alone.takes g

/-- The message of a group. -/
def messageOf (g : Cluster Fragment) : WireMessage := g.more.foldl WireMessage.add g.first.alone

theorem messageOf_takes (first : Fragment) (more : List Fragment) (f : Fragment) :
    (messageOf ⟨first, more⟩).takes f = oneMessage first f := by
  have kept : ∀ (more : List Fragment) (m : WireMessage),
      (more.foldl WireMessage.add m).takes f = m.takes f := by
    intro more
    induction more with
    | nil => exact fun _ => rfl
    | cons g rest ih => exact fun m => ih (m.add g)
  exact kept more first.alone

theorem coalesceFrom_eq (g : Cluster Fragment) (l : List Fragment) :
    coalesceFrom (messageOf g) l = (clusterFrom oneMessage g l).map messageOf := by
  induction l generalizing g with
  | nil => rfl
  | cons f l ih =>
    unfold coalesceFrom clusterFrom
    rw [messageOf_takes]
    by_cases joins : oneMessage g.first f = true
    · rw [if_pos joins, if_pos joins, ← ih]
      congr 1
      simp [messageOf]
    · rw [if_neg joins, if_neg joins, List.map_cons, ← ih]
      rfl

/-- The messages are those of the groups. -/
theorem coalesce_eq (l : List Fragment) : coalesce l = (clusters oneMessage l).map messageOf := by
  cases l with
  | nil => rfl
  | cons f l => exact coalesceFrom_eq ⟨f, []⟩ l

/-! ## Lines -/

/-- An event yields one fragment at most, at its line. -/
theorem innerItems_line (py : Python) (inner : Json) (line : Nat) :
    innerItems py inner line = [] ∨ ∃ f, innerItems py inner line = [f] ∧ f.line = line := by
  unfold innerItems
  dsimp only
  split
  · split
    · exact .inl rfl
    · split
      · exact .inl rfl
      · exact .inr ⟨_, rfl, rfl⟩
  · split
    · exact .inr ⟨_, rfl, rfl⟩
    · split
      · exact .inr ⟨_, rfl, rfl⟩
      · exact .inl rfl

theorem wireItems_line {event : Json} {line : Nat} {items : List Fragment}
    (h : wireItems? py event line = some items) : items = [] ∨ ∃ f, items = [f] ∧ f.line = line := by
  unfold wireItems? at h
  dsimp only at h
  split at h
  · obtain ⟨parts, _, rfl⟩ := Option.map_eq_some_iff.mp h
    split
    · exact .inl rfl
    · exact .inr ⟨_, rfl, rfl⟩
  · split at h
    · obtain rfl := Option.some.inj h
      exact innerItems_line py _ line
    · split at h
      · obtain rfl := Option.some.inj h
        exact innerItems_line py _ line
      · exact .inl (Option.some.inj h).symm

theorem wireItems_lines {event : Json} {line : Nat} {items : List Fragment}
    (h : wireItems? py event line = some items) : ∀ f ∈ items, f.line = line := by
  rcases wireItems_line h with rfl | ⟨f, rfl, at_⟩
  · simp
  · simpa using at_

/-- Fragments come from lines that were not passed. -/
theorem wireEventsFrom_lines (start : Int) (n : Nat) (lines : List Line) :
    ∀ f ∈ (wireEventsFrom py start n lines).1, n < f.line ∧ start < f.line := by
  induction lines generalizing n with
  | nil => exact nofun
  | cons line rest ih =>
    have later : ∀ f ∈ (wireEventsFrom py start (n + 1) rest).1, n < f.line ∧ start < f.line :=
      fun f member => ⟨by have := (ih (n + 1) f member).1; omega, (ih (n + 1) f member).2⟩
    unfold wireEventsFrom
    split
    · exact later
    · rename_i passed
      cases line with
      | blank => exact later
      | broken | huge | deep => exact nofun
      | event value =>
        dsimp only
        cases made : wireItems? py value (n + 1) with
        | none => exact nofun
        | some items =>
          intro f member
          rcases List.mem_append.mp member with here | rest
          · have at_ := wireItems_lines made f here
            omega
          · exact later f rest

/-- The lines of fragments grow. -/
theorem wireEventsFrom_sorted (start : Int) (n : Nat) (lines : List Line) :
    (wireEventsFrom py start n lines).1.Pairwise fun f g => f.line < g.line := by
  induction lines generalizing n with
  | nil => exact .nil
  | cons line rest ih =>
    unfold wireEventsFrom
    split
    · exact ih (n + 1)
    · cases line with
      | blank => exact ih (n + 1)
      | broken | huge | deep => exact .nil
      | event value =>
        dsimp only
        cases made : wireItems? py value (n + 1) with
        | none => exact .nil
        | some items =>
          rw [List.pairwise_append]
          refine ⟨?_, ih (n + 1), fun f here g later => ?_⟩
          · rcases wireItems_line made with rfl | ⟨f, rfl, _⟩
            · exact .nil
            · exact List.pairwise_singleton _ _
          · have at_ := wireItems_lines made f here
            have after := (wireEventsFrom_lines start (n + 1) rest g later).1
            omega

/-- What one line yields, before what the later ones do. -/
def lineEvents (py : Python) (line : Line) (n : Nat) (later : List Fragment × Option Failure) :
    List Fragment × Option Failure :=
  match line with
  | .blank => later
  | .broken | .huge => ([], none)
  | .deep => ([], some (.raised .recursion "maximum recursion depth exceeded"))
  | .event value =>
      match wireItems? py value n with
      | none => ([], some (.raised .type "object is not iterable"))
      | some items => (items ++ later.1, later.2)

theorem wireEventsFrom_skip {start : Int} {n : Nat} (skipped : (n + 1 : Int) ≤ start) (line : Line)
    (rest : List Line) :
    wireEventsFrom py start n (line :: rest) = wireEventsFrom py start (n + 1) rest := if_pos skipped

theorem wireEventsFrom_read {start : Int} {n : Nat} (read : ¬ (n + 1 : Int) ≤ start) (line : Line)
    (rest : List Line) :
    wireEventsFrom py start n (line :: rest) =
      lineEvents py line (n + 1) (wireEventsFrom py start (n + 1) rest) := if_neg read

/-- Nothing is skipped where the lines to skip were passed. -/
theorem wireEventsFrom_passed {start : Int} {n : Nat} (passed : start ≤ n) (lines : List Line) :
    wireEventsFrom py start n lines = wireEventsFrom py 0 n lines := by
  induction lines generalizing n with
  | nil => rfl
  | cons line rest ih =>
    rw [wireEventsFrom_read (by omega), wireEventsFrom_read (by omega), ih (by omega)]

/-- What is read after a line of a fragment is what is read from the start, without the fragments up
    to that line. -/
theorem wireEventsFrom_after {start : Int} {n : Nat} {lines : List Line}
    (reaches : ∃ f ∈ (wireEventsFrom py 0 n lines).1, start ≤ f.line) :
    wireEventsFrom py start n lines =
      ((wireEventsFrom py 0 n lines).1.filter fun f => decide (start < f.line),
        (wireEventsFrom py 0 n lines).2) := by
  induction lines generalizing n with
  | nil =>
    obtain ⟨_, member, _⟩ := reaches
    cases member
  | cons line rest ih =>
    by_cases passed : start ≤ n
    · rw [wireEventsFrom_passed passed, List.filter_eq_self.mpr]
      intro f member
      have after := (wireEventsFrom_lines 0 n (line :: rest) f member).1
      simp only [decide_eq_true_eq]
      omega
    · rw [wireEventsFrom_skip (by omega)]
      rw [wireEventsFrom_read (by omega)] at reaches ⊢
      cases line with
      | blank => exact ih reaches
      | broken | huge | deep =>
        obtain ⟨_, member, _⟩ := reaches
        cases member
      | event value =>
        unfold lineEvents at reaches ⊢
        dsimp only at reaches ⊢
        cases made : wireItems? py value (n + 1) with
        | none =>
          rw [made] at reaches
          obtain ⟨_, member, _⟩ := reaches
          cases member
        | some items =>
          rw [made] at reaches
          dsimp only at reaches ⊢
          have gone : items.filter (fun f => decide (start < f.line)) = [] := by
            rw [List.filter_eq_nil_iff]
            intro f member
            have at_ := wireItems_lines made f member
            simp only [decide_eq_true_eq]
            omega
          rw [List.filter_append, gone, List.nil_append]
          obtain ⟨f, member, far⟩ := reaches
          rcases List.mem_append.mp member with here | later
          · have at_ := wireItems_lines made f here
            have passed' : start ≤ (n + 1 : Nat) := by omega
            rw [wireEventsFrom_passed passed', List.filter_eq_self.mpr]
            intro g member
            have after := (wireEventsFrom_lines 0 (n + 1) rest g member).1
            simp only [decide_eq_true_eq]
            omega
          · exact ih ⟨f, later, far⟩

/-! ## Cuts -/

/-- The last line of a message is that of its last fragment. -/
theorem messageOf_last (g : Cluster Fragment) :
    ∃ before f, g.items = before ++ [f] ∧ (messageOf g).last = f.line := by
  obtain ⟨first, more⟩ := g
  rcases List.eq_nil_or_concat more with rfl | ⟨before, f, rfl⟩
  · exact ⟨[], first, rfl, rfl⟩
  · refine ⟨first :: before, f, by simp [Cluster.items], ?_⟩
    simp [messageOf, WireMessage.add]

/-- The fragments after the last line of a group are those of the later groups. -/
theorem filter_after {l : List Fragment} (sorted : l.Pairwise fun f g => f.line < g.line) {k : Nat}
    {g : Cluster Fragment} (found : (clusters oneMessage l)[k]? = some g) :
    l.filter (fun f => decide ((messageOf g).last < f.line)) =
      ((clusters oneMessage l).drop (k + 1)).flatMap Cluster.items := by
  obtain ⟨before, f, items, last⟩ := messageOf_last g
  have cut := clusters_split oneMessage l (k + 1)
  have upTo : ((clusters oneMessage l).take (k + 1)).flatMap Cluster.items =
      (((clusters oneMessage l).take k).flatMap Cluster.items ++ before) ++ [f] := by
    rw [List.take_add_one, found, List.flatMap_append]
    simp [items]
  rw [upTo] at cut
  have pairs := sorted
  rw [← cut, List.pairwise_append, List.pairwise_append] at pairs
  obtain ⟨⟨_, _, older⟩, _, newer⟩ := pairs
  have first : ((((clusters oneMessage l).take k).flatMap Cluster.items ++ before) ++ [f]).filter
      (fun x => decide ((messageOf g).last < x.line)) = [] := by
    rw [List.filter_eq_nil_iff]
    intro x member
    rw [last, decide_eq_true_eq]
    rcases List.mem_append.mp member with early | same
    · have less := older x early f List.mem_cons_self
      omega
    · rw [List.mem_singleton.mp same]
      omega
  have second : (((clusters oneMessage l).drop (k + 1)).flatMap Cluster.items).filter
      (fun x => decide ((messageOf g).last < x.line)) =
        ((clusters oneMessage l).drop (k + 1)).flatMap Cluster.items := by
    rw [List.filter_eq_self]
    intro x member
    have less := newer f (List.mem_append_right _ List.mem_cons_self) x member
    rw [last, decide_eq_true_eq]
    exact less
  calc l.filter (fun x => decide ((messageOf g).last < x.line))
      = ((((clusters oneMessage l).take k).flatMap Cluster.items ++ before) ++ [f] ++
          ((clusters oneMessage l).drop (k + 1)).flatMap Cluster.items).filter
            (fun x => decide ((messageOf g).last < x.line)) := by rw [cut]
    _ = _ := by rw [List.filter_append, first, second, List.nil_append]

/-- A pass that begins after the last line of a group reads the later groups. -/
theorem wireEvents_after {lines : List Line} {k : Nat} {g : Cluster Fragment}
    (found : (clusters oneMessage (wireEvents py 0 lines).1)[k]? = some g) :
    wireEvents py (messageOf g).last lines =
      (((clusters oneMessage (wireEvents py 0 lines).1).drop (k + 1)).flatMap Cluster.items,
        (wireEvents py 0 lines).2) := by
  have sorted : (wireEvents py 0 lines).1.Pairwise fun f g => f.line < g.line :=
    wireEventsFrom_sorted 0 0 lines
  have reaches : ∃ f ∈ (wireEvents py 0 lines).1, ((messageOf g).last : Int) ≤ f.line := by
    obtain ⟨before, f, items, last⟩ := messageOf_last g
    refine ⟨f, ?_, by omega⟩
    rw [← (clusters_clustering oneMessage (wireEvents py 0 lines).1).items]
    exact List.mem_flatMap.mpr ⟨g, List.mem_of_getElem? found, by rw [items]; simp⟩
  have after : wireEvents py (messageOf g).last lines = _ := wireEventsFrom_after reaches
  rw [after, ← filter_after sorted found]
  simp only [Int.ofNat_lt]
  rfl

/-! ## Messages after a line -/

/-- What follows an element of a sorted list is what is greater. -/
theorem drop_eq_filter {α : Type} {key : α → Nat} {l : List α}
    (sorted : l.Pairwise fun a b => key a < key b) {k : Nat} {a : α} (found : l[k]? = some a) :
    l.drop (k + 1) = l.filter fun b => decide (key a < key b) := by
  induction l generalizing k with
  | nil => cases found
  | cons b rest ih =>
    obtain ⟨first, later⟩ := List.pairwise_cons.mp sorted
    cases k with
    | zero =>
      obtain rfl : b = a := Option.some.inj found
      rw [List.drop_one, List.tail_cons, List.filter_cons_of_neg (by simp), List.filter_eq_self.mpr]
      intro c member
      simpa using first c member
    | succ k =>
      have found' : rest[k]? = some a := found
      have less := first a (List.mem_of_getElem? found')
      rw [List.drop_succ_cons, ih later found', List.filter_cons_of_neg]
      simp only [decide_eq_true_eq]
      omega

/-- The messages of a file end one after the other, after the line they are read from. -/
theorem wireCoalesced_sorted (start : Int) (lines : List Line) :
    (wireCoalesced py start lines).1.Pairwise fun m w => m.last < w.last := by
  have whole : (coalesce (wireEvents py start lines).1).Pairwise fun m w => m.last < w.last := by
    have sorted : (wireEvents py start lines).1.Pairwise fun f g => f.line < g.line :=
      wireEventsFrom_sorted start 0 lines
    rw [← (clusters_clustering oneMessage (wireEvents py start lines).1).items,
      List.pairwise_flatMap] at sorted
    rw [coalesce_eq, List.pairwise_map]
    refine sorted.2.imp fun {g h} less => ?_
    obtain ⟨_, f, items, last⟩ := messageOf_last g
    obtain ⟨_, f', items', last'⟩ := messageOf_last h
    rw [last, last']
    exact less f (by rw [items]; simp) f' (by rw [items']; simp)
  unfold wireCoalesced
  dsimp only
  split
  · exact whole.sublist (List.dropLast_sublist _)
  · exact whole

theorem wireCoalesced_lines (start : Int) (lines : List Line) :
    ∀ m ∈ (wireCoalesced py start lines).1, 0 < m.last ∧ start < m.last := by
  have whole : ∀ m ∈ coalesce (wireEvents py start lines).1, 0 < m.last ∧ start < m.last := by
    intro m member
    rw [coalesce_eq] at member
    obtain ⟨g, group, rfl⟩ := List.mem_map.mp member
    obtain ⟨_, f, items, last⟩ := messageOf_last g
    have inside : f ∈ (wireEvents py start lines).1 := by
      rw [← (clusters_clustering oneMessage (wireEvents py start lines).1).items]
      exact List.mem_flatMap.mpr ⟨g, group, by rw [items]; simp⟩
    rw [last]
    exact wireEventsFrom_lines start 0 lines f inside
  intro m member
  unfold wireCoalesced at member
  dsimp only at member
  split at member
  · exact whole m (List.dropLast_subset _ member)
  · exact whole m member

/-- A pass that begins after the last line of a message reads the later messages. -/
theorem wireCoalesced_after {start : Int} {lines : List Line}
    (cut : start ≤ 0 ∨ ∃ m ∈ (wireCoalesced py 0 lines).1, start = m.last) :
    wireCoalesced py start lines =
      ((wireCoalesced py 0 lines).1.filter fun m => decide (start < m.last),
        (wireCoalesced py 0 lines).2) := by
  rcases cut with early | ⟨m, member, rfl⟩
  · have same : wireEvents py start lines = wireEvents py 0 lines := wireEventsFrom_passed early lines
    have all : (wireCoalesced py 0 lines).1.filter (fun m => decide (start < m.last)) =
        (wireCoalesced py 0 lines).1 := by
      rw [List.filter_eq_self]
      intro m member
      have after := (wireCoalesced_lines 0 lines m member).1
      simp only [decide_eq_true_eq]
      omega
    rw [all]
    unfold wireCoalesced
    rw [same]
  · obtain ⟨k, found⟩ := List.mem_iff_getElem?.mp member
    have later := drop_eq_filter (wireCoalesced_sorted 0 lines) found
    simp only [Int.ofNat_lt]
    rw [← later]
    have whole : (coalesce (wireEvents py 0 lines).1)[k]? = some m := by
      unfold wireCoalesced at found
      dsimp only at found
      split at found
      · rw [List.dropLast_eq_take, List.getElem?_take] at found
        split at found
        · exact found
        · cases found
      · exact found
    rw [coalesce_eq, List.getElem?_map] at whole
    obtain ⟨g, group, rfl⟩ := Option.map_eq_some_iff.mp whole
    have events := wireEvents_after group
    unfold wireCoalesced
    rw [events]
    dsimp only
    rw [coalesce_eq, coalesce_eq, clusters_drop, List.map_drop]
    split
    · rw [List.dropLast_eq_take, List.dropLast_eq_take, List.drop_take, List.length_drop]
      congr 1
      congr 1
      omega
    · rfl

end Autosave

end Cmpath
