import Cmpath.Journal.Effect

/-!
# What retention does

`ApplyRetention` as a function of the database: each candidate gets its tombstone and loses its
rows in the seven journal tables. `retireTurn_eq` says a candidate's transaction step never fails,
so `ApplyRetention` fails only before the first write.
-/

namespace Cmpath
open Lib Lib.Txn

/-- The tombstone `ApplyRetention` writes for a turn. -/
def TurnRow.tombstone (retiredAt : Stamp) (t : TurnRow) : RetiredRow :=
  ⟨t.requestId, t.fingerprint, t.status, retiredAt⟩

namespace Db

/-- The tombstones an identifier adds: one, unless it is unknown or has one already. -/
def newTombstones (retiredAt : Stamp) (db : Db) (id : Text) : List RetiredRow :=
  match db.turn? id, db.retired? id with
  | some t, none => [t.tombstone retiredAt]
  | _, _ => []

/-- The database without the rows of the given turns. -/
def purged (gone : Text → Bool) (db : Db) : Db :=
  { db with
    turns := Table.delete (gone ·.requestId) db.turns
    toolCalls := Table.delete (gone ·.requestId) db.toolCalls
    modelCalls := Table.delete (gone ·.requestId) db.modelCalls
    modelResponses := Table.delete (gone ·.requestId) db.modelResponses
    turnBasis := Table.delete (gone ·.requestId) db.turnBasis
    turnProvenance := Table.delete (gone ·.requestId) db.turnProvenance
    actionLeases := Table.delete (gone ·.requestId) db.actionLeases }

/-- One candidate retired. -/
def retireOne (retiredAt : Stamp) (id : Text) (db : Db) : Db :=
  { db.purged (· == id) with retiredTurns := db.retiredTurns ++ db.newTombstones retiredAt id }

/-- Candidates retired one after the other. -/
def retireAll (retiredAt : Stamp) : List Text → Db → Db
  | [], db => db
  | id :: rest, db => retireAll retiredAt rest (db.retireOne retiredAt id)

end Db

theorem rows_delete (table : JournalTable) (id : Text) (db : Db) :
    table.rows (table.delete id db) id = [] := by
  have gone {α : Type} (key : α → Text) (rows : List α) :
      (Table.delete (key · == id) rows).filter (key · == id) = [] := by
    rw [List.filter_eq_nil_iff]
    intro r member
    simpa using (Table.mem_delete.mp member).2
  cases table <;> simp only [JournalTable.rows, JournalTable.delete, List.map_eq_nil_iff] <;>
    exact gone _ _

theorem rows_delete_of_none {child : JournalTable} {id : Text} {db : Db}
    (none_ : child.rows db id = []) (table : JournalTable) :
    child.rows (table.delete id db) id = [] := by
  by_cases same : child = table
  · rw [same]
    exact rows_delete table id db
  · have : child.rows (table.delete id db) id = child.rows db id := by
      cases table <;> cases child <;> first | rfl | exact absurd rfl same
    rw [this, none_]

/-- A `DELETE` goes through when the tables that refer to its rows are empty for the turn. -/
theorem deleteRows_eq {table : JournalTable} {id : Text} {db : Db}
    (free : ∀ child ∈ table.referencedBy, child.rows db id = []) :
    deleteRows id table db = .ok ((), table.delete id db) := by
  have pass : ((table.rows db id).isEmpty ||
      table.referencedBy.all fun child => (child.rows db id).isEmpty) = true := by
    rw [Bool.or_eq_true, List.all_eq_true]
    right
    intro child member
    rw [free child member]
    rfl
  exact bind_of_ok (require_of pass)

theorem insertTombstone_eq (retiredAt : Stamp) (id : Text) (db : Db) :
    insertTombstone retiredAt id db =
      .ok ((), { db with retiredTurns := db.retiredTurns ++ db.newTombstones retiredAt id }) := by
  unfold insertTombstone Db.newTombstones Txn.modify
  cases found : db.turn? id with
  | none => simp [found]
  | some t =>
    cases old : db.retired? id with
    | none => simp [found, old, TurnRow.tombstone]
    | some row => simp [found, old]

/-- The deletes of one candidate, each before the table its rows refer to. -/
theorem deleteAll_eq (id : Text) (db : Db) :
    each retentionApplyTables (deleteRows id) db = .ok ((), db.purged (· == id)) := by
  unfold retentionApplyTables
  rw [each_of_ok (deleteRows_eq (by simp [JournalTable.referencedBy]))]
  rw [each_of_ok (deleteRows_eq (by
    simp only [JournalTable.referencedBy, List.mem_singleton, forall_eq]
    exact rows_delete _ _ _))]
  rw [each_of_ok (deleteRows_eq (by simp [JournalTable.referencedBy]))]
  rw [each_of_ok (deleteRows_eq (by simp [JournalTable.referencedBy]))]
  rw [each_of_ok (deleteRows_eq (by simp [JournalTable.referencedBy]))]
  rw [each_of_ok (deleteRows_eq (by simp [JournalTable.referencedBy]))]
  rw [each_of_ok (deleteRows_eq (by
    intro child member
    simp only [JournalTable.referencedBy, List.mem_cons, List.not_mem_nil, or_false] at member
    rcases member with rfl | rfl | rfl | rfl | rfl
    · exact rows_delete_of_none (rows_delete_of_none (rows_delete_of_none
        (rows_delete .toolCalls id _) _) _) _
    · exact rows_delete_of_none (rows_delete_of_none (rows_delete_of_none (rows_delete_of_none
        (rows_delete .modelCalls id _) _) _) _) _
    · exact rows_delete_of_none (rows_delete_of_none (rows_delete .turnBasis id _) _) _
    · exact rows_delete_of_none (rows_delete .turnProvenance id _) _
    · exact rows_delete .actionLeases id _))]
  rfl

theorem retired?_requestId {db : Db} {id : Text} {row : RetiredRow}
    (h : db.retired? id = some row) : row.requestId = id := by
  have := List.find?_some h
  simpa using this

theorem mem_newTombstones {retiredAt : Stamp} {db : Db} {id : Text} {row : RetiredRow}
    (h : row ∈ db.newTombstones retiredAt id) :
    ∃ t, db.turn? id = some t ∧ db.retired? id = none ∧ row = t.tombstone retiredAt := by
  unfold Db.newTombstones at h
  split at h
  · rename_i t found unretired
    exact ⟨t, found, unretired, List.mem_singleton.mp h⟩
  · simp at h

theorem newTombstones_requestId {retiredAt : Stamp} {db : Db} {id : Text} {row : RetiredRow}
    (h : row ∈ db.newTombstones retiredAt id) : row.requestId = id := by
  obtain ⟨t, found, _, rfl⟩ := mem_newTombstones h
  exact turn?_id found

/-- After one candidate, every other identifier is where it was. -/
theorem newTombstones_retireOne {retiredAt : Stamp} {id other : Text} (ne : other ≠ id) (db : Db) :
    (db.retireOne retiredAt id).newTombstones retiredAt other =
      db.newTombstones retiredAt other := by
  have turns : (db.retireOne retiredAt id).turn? other = db.turn? other := by
    refine Table.find?_delete fun t _ same => ?_
    rw [beq_iff_eq] at same
    simp [same, ne]
  have tombs : (db.retireOne retiredAt id).retired? other = db.retired? other := by
    show (db.retiredTurns ++ db.newTombstones retiredAt id).find? _ = db.retiredTurns.find? _
    have new : (db.newTombstones retiredAt id).find? (·.requestId == other) = none := by
      rw [List.find?_eq_none]
      intro row member
      rw [newTombstones_requestId member]
      simpa using Ne.symm ne
    rw [List.find?_append, new, Option.or_none]
  unfold Db.newTombstones
  rw [turns, tombs]

theorem purged_purged (gone later : Text → Bool) (db : Db) :
    (db.purged gone).purged later = db.purged fun id => gone id || later id := by
  simp only [Db.purged, Table.delete_delete]

/-- **Retention in one step.** The candidates lose their journal rows and leave their
    tombstones, in order. -/
theorem retireAll_eq (retiredAt : Stamp) : ∀ {ids : List Text} (db : Db), ids.Nodup →
    db.retireAll retiredAt ids = { db.purged ids.contains with
      retiredTurns := db.retiredTurns ++ ids.flatMap (db.newTombstones retiredAt) }
  | [], db, _ => by
      have none_ : ∀ {α : Type} (key : α → Text) (rows : List α),
          Table.delete (fun r => ([] : List Text).contains (key r)) rows = rows := by
        intro α key rows
        simp [Table.delete]
      simp only [Db.retireAll, Db.purged, none_, List.flatMap_nil, List.append_nil]
  | id :: rest, db, nodup => by
      obtain ⟨fresh, nodup⟩ := List.nodup_cons.mp nodup
      rw [Db.retireAll, retireAll_eq retiredAt (db.retireOne retiredAt id) nodup]
      have later : rest.flatMap ((db.retireOne retiredAt id).newTombstones retiredAt) =
          rest.flatMap (db.newTombstones retiredAt) := by
        refine List.flatMap_congr fun other member => newTombstones_retireOne ?_ db
        rintro rfl
        exact fresh member
      have tables : (db.retireOne retiredAt id).purged rest.contains =
          { db.purged (id :: rest).contains with
            retiredTurns := db.retiredTurns ++ db.newTombstones retiredAt id } := by
        have := purged_purged (· == id) rest.contains db
        have merged : (fun other => other == id || rest.contains other) = (id :: rest).contains := by
          funext other
          rw [List.contains_cons]
        rw [merged] at this
        show { (db.purged (· == id)).purged rest.contains with
          retiredTurns := db.retiredTurns ++ db.newTombstones retiredAt id } = _
        rw [this]
      rw [tables, later]
      simp only [Db.retireOne, List.flatMap_cons, List.append_assoc]

theorem retireTurn_ok {retiredAt : Stamp} {id : Text} {db db' : Db} {u : Unit}
    (h : retireTurn retiredAt id db = .ok (u, db')) : db' = db.retireOne retiredAt id := by
  simp only [retireTurn, bind_ok, require_ok] at h
  obtain ⟨_, mid, tomb, _, last, deletes, _, rfl⟩ := h
  rw [insertTombstone_eq] at tomb
  obtain ⟨_, rfl⟩ := Prod.mk.inj (Except.ok.inj tomb)
  rw [deleteAll_eq] at deletes
  exact (Prod.mk.inj (Except.ok.inj deletes)).2.symm

theorem retireEach_ok {retiredAt : Stamp} : ∀ {ids : List Text} {db db' : Db} {u : Unit},
    each ids (retireTurn retiredAt) db = .ok (u, db') → db' = db.retireAll retiredAt ids
  | [], _, _, _, h => each_nil_ok.mp h
  | id :: rest, db, db', u, h => by
      obtain ⟨mid, first, later⟩ := each_cons_ok.mp h
      rw [retireTurn_ok first] at later
      have rest_ := retireEach_ok later
      exact rest_

/-- The identifiers `ApplyRetention` would retire. -/
def Db.candidateIds (db : Db) (cutoff : Instant) : List Text :=
  (db.candidates cutoff).map (·.requestId)

theorem applyRetention_ok {host : Host} {clk : Clock} {cutoff : Option Instant} {planHash : Text}
    {db db' : Db} {out : RetentionReport}
    (h : applyRetention host clk cutoff planHash db = .ok (out, db')) :
    ∃ before, cutoff = some before ∧ (retention host before db).1.planHash = planHash ∧
      out = { (retention host before db).1 with applied := true } ∧
      db' = db.retireAll (clk.now 0) (db.candidateIds before) := by
  unfold applyRetention at h
  cases cutoff with
  | none => simp [problem] at h
  | some before =>
    dsimp only at h
    split at h
    · simp [problem] at h
    · split at h
      · simp [problem] at h
      · rename_i same
        simp only [bind_ok, pure_ok] at h
        obtain ⟨_, mid, run, rfl, rfl⟩ := h
        exact ⟨before, rfl, by simpa using same, rfl, retireEach_ok run⟩

end Cmpath
