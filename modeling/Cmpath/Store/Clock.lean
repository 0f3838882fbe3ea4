import Cmpath.Store.Evolution

/-!
# The scope clocks

Every row write fires a trigger that moves the clock of each task it touches, and the clock of the
whole database (`Touch.weight`). What a sequence of writes does to the clocks and to the rows of a
set of tasks is told by the log of these firings (`Logged`): writes outside the set leave its rows
alone.
-/

namespace Cmpath
open Lib Lib.Txn

/-- How far one firing moves the clock of a task. -/
def Touch.weight (t : Touch) (key : Int) : Int :=
  (if t.touches key then 1 else 0) + (if key = 0 then 1 else 0)

/-- How far a log moves it. -/
def weights (key : Int) (log : List Touch) : Int := (log.map (·.weight key)).sum

/-- The firing is about a row of a task of the set. -/
def Touch.inside (p : Int → Bool) (t : Touch) : Bool := t.old.any p || t.new.any p

/-- The rows of a set of tasks; a dependency is a row of its child. -/
structure Slice where
  tasks : List TaskRow
  messages : List MessageRow
  facts : List FactRow
  dependencies : List DependencyRow
  aliases : List AliasRow

def Db.slice (p : Int → Bool) (db : Db) : Slice where
  tasks := db.tasks.filter (p ·.id)
  messages := db.messages.filter (p ·.taskId)
  facts := db.facts.filter (p ·.taskId)
  dependencies := db.dependencies.filter (p ·.child)
  aliases := db.aliases.filter (p ·.taskId)

/-! ## Clocks -/

theorem weight_nonneg (t : Touch) (key : Int) : 0 ≤ t.weight key := by
  unfold Touch.weight
  split <;> split <;> decide

theorem weights_cons (key : Int) (t : Touch) (log : List Touch) :
    weights key (t :: log) = t.weight key + weights key log := rfl

theorem weights_append (key : Int) (first second : List Touch) :
    weights key (first ++ second) = weights key first + weights key second := by
  simp [weights]

theorem weights_nonneg (key : Int) : ∀ log : List Touch, 0 ≤ weights key log
  | [] => le_refl 0
  | t :: log => Int.add_nonneg (weight_nonneg t key) (weights_nonneg key log)

/-- A clock stands still exactly when no firing moves it. -/
theorem weights_eq_zero {key : Int} : ∀ {log : List Touch},
    weights key log = 0 ↔ ∀ t ∈ log, t.weight key = 0
  | [] => by simp [weights]
  | t :: log => by
      have first := weight_nonneg t key
      have rest := weights_nonneg key log
      rw [weights_cons, List.forall_mem_cons, ← weights_eq_zero]
      omega

/-- The clock of a task in a list of clocks. -/
def clock? (epochs : List EpochRow) (key : Int) : Option Int :=
  (epochs.find? (·.taskId == key)).map (·.epoch)

theorem clock?_update (id key : Int) : ∀ epochs : List EpochRow,
    clock? (Table.update (·.taskId == id) (fun e => { e with epoch := e.epoch + 1 }) epochs) key =
      (clock? epochs key).map (· + if id = key then 1 else 0)
  | [] => rfl
  | e :: rest => by
      have later := clock?_update id key rest
      unfold clock? Table.update at later ⊢
      rw [List.map_cons, List.find?_cons, List.find?_cons]
      by_cases own : e.taskId = id
      · subst own
        rw [if_pos (beq_self_eq_true _)]
        cases hit : e.taskId == key with
        | true => simp [beq_iff_eq.mp hit]
        | false => exact later
      · rw [if_neg (by simpa using own)]
        cases hit : e.taskId == key with
        | true =>
          have same := beq_iff_eq.mp hit
          simp [← same, Ne.symm own]
        | false => exact later

theorem clock?_bump {id key e : Int} {epochs : List EpochRow} (h : clock? epochs key = some e) :
    clock? (bump id epochs) key = some (e + if id = key then 1 else 0) := by
  unfold bump
  split
  · rw [clock?_update, h]
    rfl
  · rename_i absent
    obtain ⟨row, found, same⟩ := Option.map_eq_some_iff.mp h
    have other : id ≠ key := by
      rintro rfl
      exact absent (List.any_eq_true.mpr ⟨row, List.mem_of_find?_eq_some found,
        @List.find?_some _ (fun x : EpochRow => x.taskId == id) _ _ found⟩)
    rw [if_neg other, Int.add_zero]
    unfold clock?
    rw [List.find?_append, found]
    exact congrArg some same

theorem clock?_fire {t : Touch} {key e : Int} {epochs : List EpochRow}
    (h : clock? epochs key = some e) : clock? (t.fire epochs) key = some (e + t.weight key) := by
  obtain ⟨old, new⟩ := t
  have ticked : ∀ {es : List EpochRow} {f : Int}, clock? es key = some f →
      clock? (tick es) key = some (f + if key = 0 then 1 else 0) := by
    intro es f here
    unfold tick
    rw [clock?_update, here]
    simp [eq_comm]
  have bumped : ∀ (id : Int) {es : List EpochRow} {f : Int}, clock? es key = some f →
      clock? (bump id es) key = some (f + if id = key then 1 else 0) :=
    fun _ _ _ here => clock?_bump here
  unfold Touch.fire Touch.weight Touch.touches
  cases old with
  | none =>
    cases new with
    | none => simpa using ticked h
    | some b =>
      have moved := ticked (bumped b h)
      simpa [Int.add_assoc] using moved
  | some a =>
    have first := bumped a h
    cases new with
    | none => simpa [Int.add_assoc] using ticked first
    | some b =>
      by_cases same : a = b
      · subst same
        simpa [Int.add_assoc] using ticked first
      · have moved := ticked (bumped b first)
        by_cases atA : a = key
        · subst atA
          simpa [same, Ne.symm same, Int.add_assoc] using moved
        · simpa [same, atA, Int.add_assoc] using moved

/-! ## Rows -/

theorem slice_touchAll (p : Int → Bool) (ts : List Touch) (db : Db) :
    (db.touchAll ts).slice p = db.slice p := by
  simp [Db.slice]

theorem find?_beq_of_mem {α : Type} [DecidableEq α] {old : α} {rows : List α} (h : old ∈ rows) :
    rows.find? (· == old) = some old := by
  cases found : rows.find? (· == old) with
  | none => simpa using List.find?_eq_none.mp found old h
  | some r => rw [beq_iff_eq.mp (@List.find?_some _ (· == old) _ _ found)]

/-- A write leaves the rows of a set of tasks alone when none of its firings is inside the set. -/
theorem Write.slice_apply {w : Write} {db : Db} (legal : w.Legal db) {p : Int → Bool}
    (outside : ∀ t ∈ w.touches db, t.inside p = false) : (w.apply db).slice p = db.slice p := by
  have inserted : ∀ {id : Int}, Touch.inside p ⟨none, some id⟩ = false → p id = false := by
    intro id h
    simpa [Touch.inside] using h
  have replaced : ∀ {a b : Int}, Touch.inside p ⟨some a, some b⟩ = false →
      p a = false ∧ p b = false := by
    intro a b h
    simpa [Touch.inside] using h
  have deleted : ∀ {α : Type} {rows : List α} {gone : α → Bool} {key : α → Int},
      (∀ t ∈ (rows.filter gone).map (fun r => (⟨some (key r), none⟩ : Touch)),
        t.inside p = false) →
      (Table.delete gone rows).filter (p <| key ·) = rows.filter (p <| key ·) := by
    intro α rows gone key h
    apply Table.filter_delete_of_disjoint
    intro r member mine
    cases hit : gone r with
    | false => rfl
    | true =>
      have := h _ (List.mem_map.mpr ⟨r, List.mem_filter.mpr ⟨member, hit⟩, rfl⟩)
      rw [Touch.inside, Option.any_some, mine] at this
      cases this
  cases w with
  | insertTask new =>
    have other := inserted (outside _ List.mem_cons_self)
    show Slice.mk ((db.tasks ++ [new]).filter _) _ _ _ _ = _
    rw [Table.filter_append_of_disjoint (by simpa using other)]
    rfl
  | replaceTask old new =>
    obtain ⟨before, after⟩ := replaced (outside _ List.mem_cons_self)
    show Slice.mk ((Table.replace _ new db.tasks).filter _) _ _ _ _ = _
    rw [Table.filter_replace legal.1 before after]
    rfl
  | deleteTasks gone =>
    show (Db.touchAll _ _).slice p = _
    rw [slice_touchAll]
    show Slice.mk ((Table.delete gone db.tasks).filter _) _ _ _ _ = _
    rw [deleted outside]
    rfl
  | insertMessage new =>
    have other := inserted (outside _ List.mem_cons_self)
    show Slice.mk _ ((db.messages ++ [new]).filter _) _ _ _ = _
    rw [Table.filter_append_of_disjoint (by simpa using other)]
    rfl
  | replaceMessage old new =>
    obtain ⟨before, after⟩ := replaced (outside _ List.mem_cons_self)
    show Slice.mk _ ((Table.replace _ new db.messages).filter _) _ _ _ = _
    rw [Table.filter_replace legal.1 before after]
    rfl
  | deleteMessages gone =>
    show (Db.touchAll _ _).slice p = _
    rw [slice_touchAll]
    show Slice.mk _ ((Table.delete gone db.messages).filter _) _ _ _ = _
    rw [deleted outside]
    rfl
  | insertFact new =>
    have other := inserted (outside _ List.mem_cons_self)
    show Slice.mk _ _ ((db.facts ++ [new]).filter _) _ _ = _
    rw [Table.filter_append_of_disjoint (by simpa using other)]
    rfl
  | replaceFact old new =>
    obtain ⟨before, after⟩ := replaced (outside _ List.mem_cons_self)
    show Slice.mk _ _ ((Table.replace _ new db.facts).filter _) _ _ = _
    rw [Table.filter_replace legal.1 before after]
    rfl
  | deleteFacts gone =>
    show (Db.touchAll _ _).slice p = _
    rw [slice_touchAll]
    show Slice.mk _ _ ((Table.delete gone db.facts).filter _) _ _ = _
    rw [deleted outside]
    rfl
  | insertDependency new =>
    have other := inserted (outside _ List.mem_cons_self)
    show Slice.mk _ _ _ ((db.dependencies ++ [new]).filter _) _ = _
    rw [Table.filter_append_of_disjoint (by simpa using other)]
    rfl
  | replaceDependency old new =>
    obtain ⟨before, after⟩ := replaced (outside _ List.mem_cons_self)
    show Slice.mk _ _ _ ((Table.replace _ new db.dependencies).filter _) _ = _
    rw [Table.filter_replace (find?_beq_of_mem legal.1) before after]
    rfl
  | deleteDependencies gone =>
    show (Db.touchAll _ _).slice p = _
    rw [slice_touchAll]
    show Slice.mk _ _ _ ((Table.delete gone db.dependencies).filter _) _ = _
    rw [deleted outside]
    rfl
  | insertAlias new =>
    have other := inserted (outside _ List.mem_cons_self)
    show Slice.mk _ _ _ _ ((db.aliases ++ [new]).filter _) = _
    rw [Table.filter_append_of_disjoint (by simpa using other)]
    rfl
  | replaceAlias old new =>
    obtain ⟨before, after⟩ := replaced (outside _ List.mem_cons_self)
    show Slice.mk _ _ _ _ ((Table.replace _ new db.aliases).filter _) = _
    rw [Table.filter_replace (find?_beq_of_mem legal.1) before after]
    rfl
  | deleteAliases gone =>
    show (Db.touchAll _ _).slice p = _
    rw [slice_touchAll]
    show Slice.mk _ _ _ _ ((Table.delete gone db.aliases).filter _) = _
    rw [deleted outside]
    rfl
  | event => rfl
  | runtime => rfl

/-! ## The log -/

/-- What the firings `added` since `a` tell about `b`. -/
structure Logged (added : List Touch) (a b : Db) : Prop where
  writes : b.writes = added ++ a.writes
  named : ∀ t ∈ added, t.old.isSome ∨ t.new.isSome
  clocks : ∀ {key e}, a.epoch? key = some e → b.epoch? key = some (e + weights key added)
  rows : ∀ {p}, (∀ t ∈ added, t.inside p = false) → b.slice p = a.slice p

namespace Logged

theorem refl (db : Db) : Logged [] db db :=
  ⟨rfl, by simp, fun h => by rw [h]; exact congrArg some (Int.add_zero _).symm, fun _ => rfl⟩

theorem trans {a b c : Db} {first second : List Touch} (h : Logged first a b)
    (k : Logged second b c) : Logged (second ++ first) a c := by
  refine ⟨?_, ?_, ?_, ?_⟩
  · rw [k.writes, h.writes, List.append_assoc]
  · intro t member
    rcases List.mem_append.mp member with member | member
    · exact k.named t member
    · exact h.named t member
  · intro key e here
    rw [k.clocks (h.clocks here), weights_append]
    congr 1
    omega
  · intro p outside
    rw [k.rows fun t member => outside t (List.mem_append_left _ member),
      h.rows fun t member => outside t (List.mem_append_right _ member)]

end Logged

theorem touchAll_log (ts : List Touch) (db : Db) :
    (db.touchAll ts).writes = ts ++ db.writes ∧
      ∀ {key e}, db.epoch? key = some e →
        (db.touchAll ts).epoch? key = some (e + weights key ts) := by
  induction ts with
  | nil => exact ⟨rfl, fun h => by rw [weights, List.map_nil, List.sum_nil, Int.add_zero]; exact h⟩
  | cons t ts ih =>
    refine ⟨?_, fun {key e} here => ?_⟩
    · show t :: (db.touchAll ts).writes = _
      rw [ih.1]
      rfl
    · show clock? (t.fire (db.touchAll ts).scopeEpochs) key = _
      rw [clock?_fire (ih.2 here), weights_cons]
      congr 1
      omega

/-- The tables with the rows of the write, before its triggers fire. -/
theorem Write.apply_eq (w : Write) (db : Db) :
    ∃ tables : Tables, w.apply db = Db.touchAll (w.touches db) { db with toTables := tables } := by
  cases w <;> exact ⟨_, rfl⟩

theorem Write.logged {w : Write} {db : Db} (legal : w.Legal db) :
    Logged (w.touches db) db (w.apply db) := by
  obtain ⟨tables, same⟩ := w.apply_eq db
  refine ⟨?_, ?_, ?_, w.slice_apply legal⟩
  · rw [same]
    exact (touchAll_log _ _).1
  · cases w with
    | deleteTasks | deleteMessages | deleteFacts | deleteDependencies | deleteAliases =>
      intro t member
      obtain ⟨r, _, rfl⟩ := List.mem_map.mp member
      exact .inl rfl
    | _ => simp [Write.touches]
  · intro key e here
    rw [same]
    exact (touchAll_log _ _).2 here

/-- A sequence of writes has a log. -/
theorem Evolves.logged {allowed : Write → Prop} {a b : Db} (h : Evolves allowed a b) :
    ∃ added, Logged added a b := by
  induction h with
  | refl => exact ⟨[], .refl _⟩
  | step _ w _ legal ih =>
    obtain ⟨added, logged⟩ := ih
    exact ⟨_, logged.trans (w.logged legal)⟩

end Cmpath
