import Cmpath.Engine.Harness

/-!
# Retention

The retention half of `native/engine/maintenance.go`: `RetentionPlan` lists the terminal turns that
may go and hashes every journal row of theirs, `ApplyRetention` deletes exactly what a plan with
the same hash lists and leaves a tombstone for each.
-/

namespace Cmpath
open Lib Lib.Txn

/-- The tables a turn has rows in, `retentionCorpusTables` (`maintenance.go:312`). -/
inductive JournalTable where
  | turns
  | toolCalls
  | modelCalls
  | modelResponses
  | turnBasis
  | turnProvenance
  | actionLeases
  deriving DecidableEq, Repr

namespace JournalTable

/-- The SQL name. -/
def name : JournalTable → Text
  | .turns => Text.lit "cmp_turns"
  | .toolCalls => Text.lit "cmp_tool_calls"
  | .modelCalls => Text.lit "cmp_model_calls"
  | .modelResponses => Text.lit "cmp_model_responses"
  | .turnBasis => Text.lit "cmp_turn_basis"
  | .turnProvenance => Text.lit "cmp_turn_provenance"
  | .actionLeases => Text.lit "cmp_action_leases"

/-- `eachRow(table, " WHERE request_id=?", id)`: the rows of a turn in rowid order. -/
def rows (table : JournalTable) (db : Db) (id : Text) : List Row :=
  match table with
  | .turns => (db.turns.filter (·.requestId == id)).map TurnRow.row
  | .toolCalls => (db.toolCalls.filter (·.requestId == id)).map ToolRow.row
  | .modelCalls => (db.modelCalls.filter (·.requestId == id)).map ModelCallRow.row
  | .modelResponses => (db.modelResponses.filter (·.requestId == id)).map ModelResponseRow.row
  | .turnBasis => (db.turnBasis.filter (·.requestId == id)).map BasisRow.row
  | .turnProvenance => (db.turnProvenance.filter (·.requestId == id)).map ProvenanceRow.row
  | .actionLeases => (db.actionLeases.filter (·.requestId == id)).map LeaseRow.row

/-- `DELETE FROM table WHERE request_id=?`, the foreign keys aside. -/
def delete (table : JournalTable) (id : Text) (db : Db) : Db :=
  match table with
  | .turns => { db with turns := Table.delete (·.requestId == id) db.turns }
  | .toolCalls => { db with toolCalls := Table.delete (·.requestId == id) db.toolCalls }
  | .modelCalls => { db with modelCalls := Table.delete (·.requestId == id) db.modelCalls }
  | .modelResponses =>
      { db with modelResponses := Table.delete (·.requestId == id) db.modelResponses }
  | .turnBasis => { db with turnBasis := Table.delete (·.requestId == id) db.turnBasis }
  | .turnProvenance =>
      { db with turnProvenance := Table.delete (·.requestId == id) db.turnProvenance }
  | .actionLeases => { db with actionLeases := Table.delete (·.requestId == id) db.actionLeases }

/-- The tables with a foreign key into a table (`journal.sql:22-90`). -/
def referencedBy : JournalTable → List JournalTable
  | .turns => [.toolCalls, .modelCalls, .turnBasis, .turnProvenance, .actionLeases]
  | .modelCalls => [.modelResponses]
  | _ => []

end JournalTable

/-- `retentionChildTables` (`maintenance.go:307`). -/
def retentionChildTables : List JournalTable :=
  [.toolCalls, .modelCalls, .modelResponses, .turnBasis, .turnProvenance, .actionLeases]

/-- `retentionCorpusTables` (`maintenance.go:312`). -/
def retentionCorpusTables : List JournalTable := .turns :: retentionChildTables

/-- `retentionApplyTables` (`maintenance.go:317`). -/
def retentionApplyTables : List JournalTable :=
  [.modelResponses, .modelCalls, .toolCalls, .turnBasis, .turnProvenance, .actionLeases, .turns]

/-- `RetentionReport` (`maintenance.go:284-291`); `rows` lists the counts of the tables, the
    tombstones to create last. -/
structure RetentionReport where
  cutoff : Instant
  planHash : Text
  rows : List (JournalTable × Nat)
  retired : Nat
  protectedPending : Nat
  protectedUnresolved : Nat
  applied : Bool := false
  deriving DecidableEq

/-- The turn has a tool intent without a result. -/
def Db.unresolved (db : Db) (id : Text) : Bool :=
  db.toolCalls.any fun t => t.requestId == id && t.status == .started

/-- Retention may delete the turn (`maintenance.go:380-413`): it is terminal, nothing of it is
    unresolved, and it was last written before the cutoff. -/
def Db.candidate (db : Db) (cutoff : Instant) (t : TurnRow) : Bool :=
  t.status != .pending && !db.unresolved t.requestId && t.updatedAt.toInstant.before cutoff

/-- The candidates in rowid order. -/
def Db.candidates (db : Db) (cutoff : Instant) : List TurnRow :=
  db.turns.filter (db.candidate cutoff)

/-- `[]any{table, row}`. -/
def taggedRow (tag : Text) (row : Row) : Json := .arr [.str tag, row.json]

/-- The rows of a turn in one table, each under the table's name. -/
def taggedRows (db : Db) (id : Text) (table : JournalTable) : List Json :=
  (table.rows db id).map (taggedRow table.name)

/-- The lines the candidate scan encodes for one turn (`maintenance.go:414-424`). -/
def candidateLines (db : Db) (t : TurnRow) : List Json :=
  t.row.json :: retentionChildTables.flatMap (taggedRows db t.requestId)

/-- The tombstones of an identifier as the corpus encodes them. -/
def tombstoneLines (db : Db) (id : Text) : List Json :=
  (db.retiredTurns.filter (·.requestId == id)).map fun t =>
    taggedRow (Text.lit "cmp_retired_turns") t.row

/-- `retentionCorpus` (`maintenance.go:347-367`). -/
def retentionCorpus (db : Db) (ids : List Text) : List Json :=
  .arr [.str (Text.lit "cmpath-retention-corpus-v1"),
      if ids.isEmpty then .null else .arr (ids.map .str)] ::
    (ids.flatMap fun id => retentionCorpusTables.flatMap (taggedRows db id)) ++
      ids.flatMap (tombstoneLines db)

/-- Everything the plan hash is taken over, line by line (`maintenance.go:374-429`). -/
def retentionLines (db : Db) (cutoff : Instant) : List Json :=
  .arr [.str (Text.lit "cmpath-retention-v1"), .str cutoff.text] ::
    ((db.candidates cutoff).flatMap (candidateLines db) ++
      retentionCorpus db ((db.candidates cutoff).map (·.requestId)))

/-- The rows of all candidates in one table. -/
def Db.candidateRows (db : Db) (cutoff : Instant) (table : JournalTable) : Nat :=
  ((db.candidates cutoff).map fun t => (table.rows db t.requestId).length).sum

/-- `retention` (`maintenance.go:371-433`): the report and the candidate identifiers. -/
def retention (host : Host) (cutoff : Instant) (db : Db) : RetentionReport × List Text :=
  ({ cutoff := cutoff
     planHash := (host.sha256 (Json.lines (retentionLines db cutoff))).text
     rows := (JournalTable.turns, (db.candidates cutoff).length) ::
       retentionChildTables.map fun table => (table, db.candidateRows cutoff table)
     retired := (db.candidates cutoff).length
     protectedPending := (db.turns.filter (·.status == .pending)).length
     protectedUnresolved :=
       (db.turns.filter fun t => t.status != .pending && db.unresolved t.requestId).length },
    (db.candidates cutoff).map (·.requestId))

/-- `RetentionPlan` (`maintenance.go:439-446`); a cutoff that is no RFC3339 timestamp is
    `none`. -/
def retentionPlan (host : Host) (cutoff : Option Instant) : Query RetentionReport := fun db =>
  match cutoff with
  | none => problem .invalid "cutoff must be an RFC3339 timestamp with timezone"
  | some cutoff => .ok (retention host cutoff db).1

/-- `INSERT OR IGNORE INTO cmp_retired_turns … SELECT … FROM cmp_turns WHERE request_id=?`. -/
def insertTombstone (retiredAt : Stamp) (id : Text) : Tx Unit :=
  modify fun db =>
    match db.turn? id with
    | none => db
    | some t =>
        if (db.retired? id).isSome then db
        else
          { db with
            retiredTurns := db.retiredTurns ++ [⟨t.requestId, t.fingerprint, t.status, retiredAt⟩] }

/-- `DELETE FROM table WHERE request_id=?`. -/
def deleteRows (id : Text) (table : JournalTable) : Tx Unit := do
  require (fun db => (table.rows db id).isEmpty ||
      table.referencedBy.all fun child => (child.rows db id).isEmpty)
    (.constraint "FOREIGN KEY constraint failed")
  modify (table.delete id)

/-- `retentionConverged` (`maintenance.go:325-337`). -/
def retentionConverged (id : Text) (db : Db) : Bool :=
  retentionCorpusTables.all (fun table => (table.rows db id).isEmpty) &&
    (db.retiredTurns.filter (·.requestId == id)).length == 1

/-- One candidate of `ApplyRetention` (`maintenance.go:471-487`). -/
def retireTurn (retiredAt : Stamp) (id : Text) : Tx Unit := do
  insertTombstone retiredAt id
  each retentionApplyTables (deleteRows id)
  require (retentionConverged id)
    (.problem .integrity "retention did not remove every journal row for a retired request ID")

/-- `ApplyRetention` (`maintenance.go:453-493`). -/
def applyRetention (host : Host) (clk : Clock) (cutoff : Option Instant) (planHash : Text) :
    Tx RetentionReport := fun db =>
  match cutoff with
  | none => problem .invalid "cutoff must be an RFC3339 timestamp with timezone"
  | some cutoff =>
      if planHash.size ≠ 64 then problem .invalid "a dry-run plan hash is required"
      else
        let plan := retention host cutoff db
        if plan.1.planHash ≠ planHash then
          problem .stalePlan "retention candidates changed; repeat dry-run"
        else
          (do
            each plan.2 (retireTurn (clk.now 0))
            pure { plan.1 with applied := true } : Tx RetentionReport) db

end Cmpath
