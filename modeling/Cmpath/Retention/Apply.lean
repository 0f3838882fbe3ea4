import Cmpath.Journal.Fencing

/-!
# Applying a retention plan

`ApplyRetention` with the hash of the current plan never fails: each candidate is there, has no
tombstone yet, and loses every row before the convergence check looks. What it leaves is
`RetentionExact`; with any other hash it writes nothing.
-/

namespace Cmpath
open Lib Lib.Txn

/-- The number of rows of a journal table. -/
def JournalTable.size (db : Db) : JournalTable → Nat
  | .turns => db.turns.length
  | .toolCalls => db.toolCalls.length
  | .modelCalls => db.modelCalls.length
  | .modelResponses => db.modelResponses.length
  | .turnBasis => db.turnBasis.length
  | .turnProvenance => db.turnProvenance.length
  | .actionLeases => db.actionLeases.length

/-- A terminal turn last written before the cutoff, without a started tool. -/
def Eligible (db : Db) (cutoff : Instant) (t : TurnRow) : Prop :=
  t.status ≠ .pending ∧ t.updatedAt.toInstant.before cutoff = true ∧
    ∀ c ∈ db.toolCalls, c.requestId = t.requestId → c.status ≠ .started

/-- What applying the plan of a database leaves. -/
structure RetentionExact (retiredAt : Stamp) (cutoff : Instant) (plan : RetentionReport)
    (db db' : Db) : Prop where
  /-- Nothing but the journal rows of the candidates goes and nothing but their tombstones comes. -/
  state : db' = { db.purged (db.candidateIds cutoff).contains with
    retiredTurns := db.retiredTurns ++ (db.candidates cutoff).map (TurnRow.tombstone retiredAt) }
  turns : ∀ t, t ∈ db'.turns ↔ t ∈ db.turns ∧ ¬ Eligible db cutoff t
  gone : ∀ t ∈ db.turns, Eligible db cutoff t → ∀ table : JournalTable,
    table.rows db' t.requestId = []
  tombstone : ∀ t ∈ db.turns, Eligible db cutoff t →
    db'.retiredTurns.filter (·.requestId == t.requestId) = [t.tombstone retiredAt]
  others : ∀ id, (∀ t ∈ db.turns, t.requestId = id → ¬ Eligible db cutoff t) →
    db'.toJournal.ofTurn id = db.toJournal.ofTurn id
  counts : ∀ table n, (table, n) ∈ plan.rows → table.size db = table.size db' + n
  turnCount : (JournalTable.turns, (db.candidates cutoff).length) ∈ plan.rows
  tombstoneCount : plan.retired = (db.candidates cutoff).length

/-! ## One candidate -/

section Retire

variable {db : Db} {retiredAt : Stamp} {id : Text}

theorem newTombstones_eq (keys : JournalKeys db.toJournal) {t : TurnRow}
    (live : db.turn? id = some t) : db.newTombstones retiredAt id = [t.tombstone retiredAt] := by
  have unretired : db.retired? id = none := by
    refine List.find?_eq_none.mpr fun r old hit => ?_
    exact keys.apart t (turn?_mem live) r old ((beq_iff_eq.mp hit).trans (turn?_id live).symm)
  simp only [Db.newTombstones, live, unretired]

theorem retireOne_keys (keys : JournalKeys db.toJournal) :
    JournalKeys (db.retireOne retiredAt id).toJournal := by
  refine @JournalKeys.retire _ keys (· == id) _ ?_ (fun r member => ?_) fun r member s old same => ?_
  · unfold Table.Keyed Db.newTombstones
    split <;> simp
  · rw [newTombstones_requestId member]
    exact beq_self_eq_true id
  · obtain ⟨_, _, unretired, _⟩ := mem_newTombstones member
    rw [newTombstones_requestId member] at same
    exact retired?_none unretired s old same

/-- The rows of a turn that was purged. -/
theorem rows_purged {gone : Text → Bool} (goes : gone id = true) (tombs : List RetiredRow)
    (table : JournalTable) :
    table.rows { db.purged gone with retiredTurns := tombs } id = [] := by
  have none_ {α : Type} (key : α → Text) (rows : List α) :
      (Table.delete (fun r => gone (key r)) rows).filter (key · == id) = [] := by
    rw [List.filter_eq_nil_iff]
    intro r member hit
    have := (Table.mem_delete.mp member).2
    rw [beq_iff_eq.mp hit, goes] at this
    cases this
  cases table <;> simp only [JournalTable.rows, List.map_eq_nil_iff] <;> exact none_ _ _

/-- **A candidate always converges.** -/
theorem retireTurn_eq (keys : JournalKeys db.toJournal) {t : TurnRow}
    (live : db.turn? id = some t) :
    retireTurn retiredAt id db = .ok ((), db.retireOne retiredAt id) := by
  have converged : retentionConverged id (db.retireOne retiredAt id) = true := by
    have gone : ∀ table : JournalTable, (table.rows (db.retireOne retiredAt id) id).isEmpty = true
      := by
        intro table
        rw [List.isEmpty_iff]
        exact @rows_purged db id (· == id) (beq_self_eq_true id) _ table
    have old : db.retiredTurns.filter (·.requestId == id) = [] := by
      rw [List.filter_eq_nil_iff]
      intro r member
      have := keys.apart t (turn?_mem live) r member
      rw [turn?_id live] at this
      simpa using this
    have one : (db.retireOne retiredAt id).retiredTurns.filter (·.requestId == id) =
        [t.tombstone retiredAt] := by
      show (db.retiredTurns ++ db.newTombstones retiredAt id).filter _ = _
      rw [List.filter_append, old, newTombstones_eq keys live, List.nil_append]
      simp [TurnRow.tombstone, turn?_id live]
    unfold retentionConverged
    rw [one]
    simp [gone]
  unfold retireTurn
  rw [bind_of_ok (insertTombstone_eq retiredAt id db)]
  rw [bind_of_ok (deleteAll_eq id _)]
  exact require_of converged

theorem turn?_retireOne {other : Text} (ne : other ≠ id) :
    (db.retireOne retiredAt id).turn? other = db.turn? other := by
  refine Table.find?_delete fun t _ hit => ?_
  rw [beq_iff_eq.mp hit]
  simpa using ne

end Retire

/-- The candidates one after the other. -/
theorem retireEach_eq {retiredAt : Stamp} : ∀ {ids : List Text} {db : Db}, ids.Nodup →
    JournalKeys db.toJournal → (∀ id ∈ ids, ∃ t, db.turn? id = some t) →
    each ids (retireTurn retiredAt) db = .ok ((), db.retireAll retiredAt ids)
  | [], _, _, _, _ => rfl
  | id :: rest, db, nodup, keys, live => by
      obtain ⟨fresh, nodup⟩ := List.nodup_cons.mp nodup
      obtain ⟨t, found⟩ := live id List.mem_cons_self
      rw [each_of_ok (retireTurn_eq keys found)]
      refine retireEach_eq nodup (retireOne_keys keys) fun other member => ?_
      rw [turn?_retireOne (by rintro rfl; exact fresh member)]
      exact live other (List.mem_cons_of_mem _ member)

/-! ## The whole plan -/

section Plan

variable {host : Host} {db : Db} {cutoff : Instant} {retiredAt : Stamp}

theorem candidate_iff {t : TurnRow} : db.candidate cutoff t = true ↔ Eligible db cutoff t := by
  simp only [Db.candidate, Db.unresolved, Eligible, Bool.and_eq_true, bne_iff_ne, ne_eq,
    Bool.not_eq_true', List.any_eq_false, Bool.and_eq_true, beq_iff_eq, not_and, and_assoc]
  constructor
  · rintro ⟨terminal, resolved, old⟩
    exact ⟨terminal, old, resolved⟩
  · rintro ⟨terminal, old, resolved⟩
    exact ⟨terminal, resolved, old⟩

theorem mem_candidateIds (keys : JournalKeys db.toJournal) {t : TurnRow} (live : t ∈ db.turns) :
    (db.candidateIds cutoff).contains t.requestId = true ↔ Eligible db cutoff t := by
  rw [List.contains_iff_mem, ← candidate_iff]
  constructor
  · intro member
    obtain ⟨s, candidate, same⟩ := List.mem_map.mp member
    obtain ⟨source, passes⟩ := List.mem_filter.mp candidate
    rw [← keys.turn_eq source live same]
    exact passes
  · intro passes
    exact List.mem_map.mpr ⟨t, List.mem_filter.mpr ⟨live, passes⟩, rfl⟩

/-- Each candidate leaves its tombstone. -/
theorem tombstones_eq (keys : JournalKeys db.toJournal) :
    (db.candidateIds cutoff).flatMap (db.newTombstones retiredAt) =
      (db.candidates cutoff).map (TurnRow.tombstone retiredAt) := by
  unfold Db.candidateIds
  rw [List.flatMap_map, List.map_eq_flatMap]
  refine List.flatMap_congr fun t member => newTombstones_eq keys ?_
  exact keys.turns.find?_eq (List.mem_filter.mp member).1

/-- The plan of a database applies to it. -/
theorem applyRetention_eq (keys : JournalKeys db.toJournal) (clk : Clock) :
    applyRetention host clk (some cutoff) (retention host cutoff db).1.planHash db =
      .ok ({ (retention host cutoff db).1 with applied := true },
        db.retireAll (clk.now 0) (db.candidateIds cutoff)) := by
  have live : ∀ id ∈ db.candidateIds cutoff, ∃ t, db.turn? id = some t := by
    intro id member
    obtain ⟨t, candidate, rfl⟩ := List.mem_map.mp member
    exact ⟨t, keys.turns.find?_eq (List.mem_filter.mp candidate).1⟩
  have size : (retention host cutoff db).1.planHash.size = 64 := Digest.size_text _
  unfold applyRetention
  dsimp only
  rw [if_neg (not_not.mpr size), if_neg (not_not.mpr rfl)]
  exact bind_of_ok (retireEach_eq (keys.candidateIds_nodup cutoff) keys live)

/-- The rows of a table are those that stay and those of the candidates. -/
theorem size_purged (ids : List Text) (nodup : ids.Nodup) (tombs : List RetiredRow)
    (table : JournalTable) :
    table.size db = table.size { db.purged ids.contains with retiredTurns := tombs } +
      (ids.map fun id => (table.rows db id).length).sum := by
  have split {α : Type} (key : α → Text) (rows : List α) :
      rows.length = (Table.delete (fun r => ids.contains (key r)) rows).length +
        (ids.map fun id => (rows.filter (key · == id)).length).sum := by
    rw [← Table.length_filter_contains key rows nodup]
    exact Table.length_delete _ _
  cases table <;> simp only [JournalTable.rows, List.length_map] <;> exact split _ _

theorem candidateRows_eq (table : JournalTable) :
    db.candidateRows cutoff table =
      ((db.candidateIds cutoff).map fun id => (table.rows db id).length).sum := by
  unfold Db.candidateRows Db.candidateIds
  rw [List.map_map]
  rfl

/-- The candidates are the rows of the turns table that go. -/
theorem candidateRows_turns (keys : JournalKeys db.toJournal) :
    db.candidateRows cutoff .turns = (db.candidates cutoff).length := by
  rw [candidateRows_eq]
  simp only [JournalTable.rows, List.length_map]
  rw [← Table.length_filter_contains (·.requestId) db.turns (keys.candidateIds_nodup cutoff)]
  congr 1
  refine List.filter_congr fun t live => ?_
  rw [Bool.eq_iff_iff, mem_candidateIds keys live, candidate_iff]

theorem retention_rows (table : JournalTable) (n : Nat) (keys : JournalKeys db.toJournal)
    (member : (table, n) ∈ (retention host cutoff db).1.rows) :
    n = db.candidateRows cutoff table := by
  rcases List.mem_cons.mp member with same | member
  · obtain ⟨rfl, rfl⟩ := Prod.mk.inj same
    exact (candidateRows_turns keys).symm
  · obtain ⟨child, _, same⟩ := List.mem_map.mp member
    obtain ⟨rfl, rfl⟩ := Prod.mk.inj same
    rfl

theorem retention_exact_of_keys (keys : JournalKeys db.toJournal) :
    RetentionExact retiredAt cutoff (retention host cutoff db).1 db
      (db.retireAll retiredAt (db.candidateIds cutoff)) := by
  have nodup := keys.candidateIds_nodup cutoff
  have state : db.retireAll retiredAt (db.candidateIds cutoff) =
      { db.purged (db.candidateIds cutoff).contains with
        retiredTurns := db.retiredTurns ++ (db.candidates cutoff).map
          (TurnRow.tombstone retiredAt) } := by
    rw [retireAll_eq retiredAt db nodup, tombstones_eq keys]
  have eligible : ∀ t ∈ db.candidates cutoff, t ∈ db.turns ∧ Eligible db cutoff t := by
    intro t candidate
    obtain ⟨live, passes⟩ := List.mem_filter.mp candidate
    exact ⟨live, candidate_iff.mp passes⟩
  refine ⟨state, ?_, ?_, ?_, ?_, ?_, List.mem_cons_self, rfl⟩
  · intro t
    rw [congrArg (fun db => db.turns) state]
    show t ∈ Table.delete _ db.turns ↔ _
    rw [Table.mem_delete]
    constructor
    · rintro ⟨live, stays⟩
      refine ⟨live, fun eligible => ?_⟩
      rw [(mem_candidateIds keys live).mpr eligible] at stays
      cases stays
    · rintro ⟨live, stays⟩
      exact ⟨live, Bool.eq_false_iff.mpr fun goes => stays ((mem_candidateIds keys live).mp goes)⟩
  · intro t live eligible table
    rw [state]
    exact rows_purged ((mem_candidateIds keys live).mpr eligible) _ table
  · intro t live eligible
    have member := List.contains_iff_mem.mp ((mem_candidateIds keys live).mpr eligible)
    have old : db.retiredTurns.filter (·.requestId == t.requestId) = [] := by
      rw [List.filter_eq_nil_iff]
      intro r retired
      simpa using keys.apart t live r retired
    rw [state, ← tombstones_eq keys]
    show (db.retiredTurns ++ _).filter _ = _
    rw [List.filter_append, old, List.nil_append,
      Table.filter_flatMap_of_key (fun _ _ => newTombstones_requestId) nodup member]
    exact newTombstones_eq keys (keys.turns.find?_eq live)
  · intro id stays
    rw [state]
    refine ofTurn_purged ?_ fun r tomb same => ?_
    · refine Bool.eq_false_iff.mpr fun goes => ?_
      obtain ⟨t, candidate, same⟩ := List.mem_map.mp (List.contains_iff_mem.mp goes)
      exact stays t (eligible t candidate).1 same (eligible t candidate).2
    · obtain ⟨t, candidate, rfl⟩ := List.mem_map.mp tomb
      exact stays t (eligible t candidate).1 same (eligible t candidate).2
  · intro table n member
    rw [retention_rows table n keys member, candidateRows_eq, state]
    exact size_purged _ nodup _ table

end Plan

/-- **Retention is exact.** In every database the engine reaches, for every cutoff: the plan applies,
    the report is the plan's and its effect is `RetentionExact`; any other hash is refused and
    leaves every table as it is. -/
theorem retention_exact (host : Host) (calls : List (Clock × Op)) (cutoff : Instant) :
    ∃ plan, retentionPlan host (some cutoff) (runOps host .empty calls) = .ok plan ∧
      (∀ clk, ∃ db',
        Step.exec host ⟨clk, .engine (.applyRetention (some cutoff) plan.planHash)⟩
            (runOps host .empty calls) = (.ok (.retention { plan with applied := true }), db') ∧
          RetentionExact (clk.now 0) cutoff plan (runOps host .empty calls) db') ∧
      ∀ clk planHash, planHash ≠ plan.planHash →
        Refused host clk (.applyRetention (some cutoff) planHash) (runOps host .empty calls) := by
  have keys := (runOps_reachable host calls).reachable.keys
  refine ⟨_, rfl, fun clk => ⟨_, ?_, retention_exact_of_keys keys⟩, fun clk planHash other => ?_⟩
  · exact atomic_ok.mpr (responding_ok.mpr ⟨_, applyRetention_eq keys clk, rfl⟩)
  · refine refused_of_not_ok fun out db' run => ?_
    obtain ⟨_, applied, _⟩ := responding_ok.mp run
    obtain ⟨before, given, hash, _⟩ := applyRetention_ok applied
    cases given
    exact other hash.symm

end Cmpath
