import Cmpath.Store.Schema
import Cmpath.Lib.RowScan

/-!
# Export

The archive half of `native/engine/maintenance.go`: `eachRow` reads a table one row a query, each
query asking for the first row after the last one, and `Export` writes every table through it
between a header and a footer that counts the rows.
-/

namespace Cmpath
open Lib

/-- A condition on a row, its parameters bound. Rows come with their row identifiers. -/
abbrev Cond (ρ : Type) : Type := Int × ρ → Bool

/-- The text after `WHERE`, taken apart at its outermost `OR`s and, between them, `AND`s. A blank
    clause has no parts. -/
structure Clause (ρ : Type) where
  parts : List (List (Cond ρ))

namespace Clause

variable {ρ : Type}

def blank : Clause ρ := ⟨[]⟩

/-- A clause of conditions joined by `AND`. -/
def all : List (Cond ρ) → Clause ρ
  | [] => blank
  | conds => ⟨[conds]⟩

/-- The rows a query with the clause reads. -/
def selects (clause : Clause ρ) (row : Int × ρ) : Bool :=
  clause.parts.isEmpty || clause.parts.any fun conds => conds.all fun cond => cond row

/-- `rowid>?`. -/
def beyond (last : Int) : Cond ρ := fun row => decide (last < row.1)

/-- What the query text says after the first row (`maintenance.go:60-68`): the comparison alone
    for a blank clause, else the clause with ` AND rowid>?` behind it, where it belongs to the last
    of the parts. -/
def resumed (clause : Clause ρ) : Option Int → Clause ρ
  | none => clause
  | some last =>
      match clause.parts.getLast? with
      | none => ⟨[[beyond last]]⟩
      | some conds => ⟨clause.parts.dropLast ++ [conds ++ [beyond last]]⟩

@[simp] theorem selects_all (conds : List (Cond ρ)) (row : Int × ρ) :
    (all conds).selects row = conds.all fun cond => cond row := by
  cases conds with
  | nil => rfl
  | cons cond conds => simp [all, selects]

/-- Behind conditions that are joined by `AND` alone, the comparison restricts the clause. -/
theorem selects_resumed (conds : List (Cond ρ)) (last : Int) (row : Int × ρ) :
    ((all conds).resumed (some last)).selects row =
      ((conds.all fun cond => cond row) && decide (last < row.1)) := by
  cases conds with
  | nil => simp [all, blank, resumed, selects, beyond]
  | cons cond conds => simp [all, resumed, selects, beyond, Bool.and_assoc]

end Clause

section EachRow

variable {ρ σ ε : Type}

/-- The loop of `eachRow` from the last row read on; `none` where the fuel runs out. -/
def eachRowFrom (t : RowTable ρ) (clause : Clause ρ) (fn : σ → ρ → Except ε σ) :
    Nat → Option Int → σ → Option (Except ε σ)
  | 0, _, _ => none
  | fuel + 1, last, s =>
      match t.first (clause.resumed last).selects with
      | none => some (.ok s)
      | some row =>
          match fn s row.2 with
          | .error e => some (.error e)
          | .ok s => eachRowFrom t clause fn fuel (some row.1) s

/-- `eachRow` (`maintenance.go:57-89`); `fn` is the callback with the state it works on. -/
def eachRow (t : RowTable ρ) (clause : Clause ρ) (fn : σ → ρ → Except ε σ) (fuel : Nat) (s : σ) :
    Option (Except ε σ) :=
  eachRowFrom t clause fn fuel none s

variable {t : RowTable ρ} {conds : List (Cond ρ)} {fn : σ → ρ → Except ε σ}

/-- The rows the conditions select, in rowid order. -/
def matching (t : RowTable ρ) (conds : List (Cond ρ)) : List (Int × ρ) :=
  t.select fun row => conds.all fun cond => cond row

/-- Once a row is read the loop goes on with the rows that follow it. -/
theorem eachRowFrom_after (rest : List (Int × ρ)) :
    ∀ (read : List (Int × ρ)) (row : Int × ρ), matching t conds = read ++ row :: rest →
      ∀ (fuel : Nat) (s : σ), rest.length < fuel →
        eachRowFrom t (.all conds) fn fuel (some row.1) s =
          some (rest.foldlM (fun s r => fn s r.2) s) := by
  induction rest with
  | nil =>
      intro read row order fuel s enough
      obtain ⟨fuel, rfl⟩ := Nat.exists_eq_succ_of_ne_zero (Nat.pos_iff_ne_zero.mp enough)
      have next := RowTable.first_after order
      rw [eachRowFrom, funext (Clause.selects_resumed conds row.1), next]
      rfl
  | cons following rest ih =>
      intro read row order fuel s enough
      obtain ⟨fuel, rfl⟩ :=
        Nat.exists_eq_succ_of_ne_zero (Nat.pos_iff_ne_zero.mp (Nat.zero_lt_of_lt enough))
      have next := RowTable.first_after order
      rw [eachRowFrom, funext (Clause.selects_resumed conds row.1), next]
      dsimp only [List.head?_cons]
      rw [List.foldlM_cons]
      cases fn s following.2 with
      | error e => rfl
      | ok s =>
          have shifted : matching t conds = (read ++ [row]) ++ following :: rest := by simp [order]
          exact ih (read ++ [row]) following shifted fuel s (by simpa using enough)

/-- With more fuel than there are rows, `eachRow` calls its function on the matching rows, one
    after another, until one call fails. -/
theorem eachRow_all {fuel : Nat} (enough : t.rows.length < fuel) (s : σ) :
    eachRow t (.all conds) fn fuel s = some ((matching t conds).foldlM (fun s r => fn s r.2) s) := by
  obtain ⟨fuel, rfl⟩ :=
    Nat.exists_eq_succ_of_ne_zero (Nat.pos_iff_ne_zero.mp (Nat.zero_lt_of_lt enough))
  have few : (matching t conds).length ≤ fuel :=
    le_trans RowTable.length_select (Nat.lt_succ_iff.mp enough)
  have start : t.first ((Clause.all conds).resumed none).selects = (matching t conds).head? := by
    rw [Clause.resumed, funext (Clause.selects_all conds)]
    rfl
  rw [eachRow, eachRowFrom, start]
  cases order : matching t conds with
  | nil => rfl
  | cons row rest =>
      dsimp only [List.head?_cons]
      rw [List.foldlM_cons]
      cases fn s row.2 with
      | error e => rfl
      | ok s =>
          rw [order] at few
          exact eachRowFrom_after rest [] row order fuel s (Nat.lt_of_succ_le few)

end EachRow

/-- The tables an archive holds (`maintenance.go:29`). -/
def exportTables : List Text :=
  ["tasks", "dependencies", "aliases", "messages", "facts", "runtime_state", "events",
    "sqlite_sequence", "cmp_harness_meta", "cmp_turns", "cmp_tool_calls", "cmp_model_calls",
    "cmp_model_responses", "cmp_retired_turns", "cmp_scope_epochs", "cmp_turn_basis",
    "cmp_turn_provenance", "cmp_action_leases"].map Text.lit

/-- What the transaction of an export sees. -/
structure Snapshot where
  schema : List Row
  table : Text → RowTable Row

/-- One line of the archive. -/
inductive ExportLine where
  | header (format : Text) (version : Nat) (schema : List Row)
  | row (table : Text) (row : Row)
  | footer (rows : List (Text × Nat))

/-- `ExportReport` without the path, which `ExportFile` sets. -/
structure ExportReport where
  format : Text := Text.lit "cmpath-journal-jsonl"
  version : Nat := 1
  rows : List (Text × Nat) := []

section Export

variable {σ ε : Type}

/-- The callback of `Export`: encode the row, then count it. -/
def exportRow (encode : σ → ExportLine → Except ε σ) (table : Text) (s : σ × Nat) (row : Row) :
    Except ε (σ × Nat) := do
  let w ← encode s.1 (.row table row)
  pure (w, s.2 + 1)

/-- The tables of `Export`, one after another (`maintenance.go:108-119`). -/
def exportFrom (encode : σ → ExportLine → Except ε σ) (snap : Snapshot) (fuel : Nat) :
    List Text → ExportReport → σ → Option (Except ε (σ × ExportReport))
  | [], out, w => some (.ok (w, out))
  | table :: tables, out, w =>
      match eachRow (snap.table table) .blank (exportRow encode table) fuel (w, 0) with
      | none => none
      | some (.error e) => some (.error e)
      | some (.ok (w, count)) =>
          exportFrom encode snap fuel tables { out with rows := out.rows ++ [(table, count)] } w

/-- `Export` (`maintenance.go:94-123`) on the writer `encode` drives, which may fail at any
    line. -/
def exportArchive (encode : σ → ExportLine → Except ε σ) (snap : Snapshot) (fuel : Nat) (w : σ) :
    Option (Except ε (σ × ExportReport)) :=
  let out : ExportReport := {}
  match encode w (.header out.format out.version snap.schema) with
  | .error e => some (.error e)
  | .ok w =>
      match exportFrom encode snap fuel exportTables out w with
      | none => none
      | some (.error e) => some (.error e)
      | some (.ok (w, out)) =>
          match encode w (.footer out.rows) with
          | .error e => some (.error e)
          | .ok w => some (.ok (w, out))

/-- The rows of a table in rowid order. -/
def Snapshot.rows (snap : Snapshot) (table : Text) : List Row :=
  (matching (snap.table table) []).map Prod.snd

/-- The size of each table. -/
def Snapshot.counts (snap : Snapshot) (tables : List Text) : List (Text × Nat) :=
  tables.map fun table => (table, (snap.table table).rows.length)

def Snapshot.rowLines (snap : Snapshot) (tables : List Text) : List ExportLine :=
  tables.flatMap fun table => (snap.rows table).map (.row table)

/-- The report of a complete archive. -/
def Snapshot.report (snap : Snapshot) : ExportReport := { rows := snap.counts exportTables }

/-- The lines of a complete archive: a header, every row of every table, and the sizes of the
    tables. -/
def Snapshot.archive (snap : Snapshot) : List ExportLine :=
  .header snap.report.format snap.report.version snap.schema ::
    (snap.rowLines exportTables ++ [.footer snap.report.rows])

variable (encode : σ → ExportLine → Except ε σ) {snap : Snapshot} {fuel : Nat}

theorem Snapshot.length_rows (table : Text) :
    (snap.rows table).length = (snap.table table).rows.length := by
  rw [Snapshot.rows, List.length_map]
  exact RowTable.length_select_all

theorem foldlM_exportRow (table : Text) (rows : List (Int × Row)) (w : σ) (n : Nat) :
    rows.foldlM (fun s r => exportRow encode table s r.2) (w, n) =
      (((rows.map Prod.snd).map (ExportLine.row table)).foldlM encode w).map fun w =>
        (w, n + rows.length) := by
  induction rows generalizing w n with
  | nil => rfl
  | cons row rows ih =>
      rw [List.foldlM_cons, List.map_cons, List.map_cons, List.foldlM_cons]
      cases step : encode w (.row table row.2) with
      | error e => simp only [exportRow, step]; rfl
      | ok w' =>
          have tail := ih w' (n + 1)
          have here : exportRow encode table (w, n) row.2 = .ok (w', n + 1) := by
            rw [exportRow, step]
            rfl
          rw [here, List.length_cons, Nat.add_comm rows.length 1, ← Nat.add_assoc]
          exact tail

/-- A table's part of the archive. -/
theorem eachRow_exportRow (table : Text) (enough : (snap.table table).rows.length < fuel) (w : σ) :
    eachRow (snap.table table) .blank (exportRow encode table) fuel (w, 0) =
      some ((((snap.rows table).map (ExportLine.row table)).foldlM encode w).map fun w =>
        (w, (snap.table table).rows.length)) := by
  have scanned : eachRow (snap.table table) (.all []) (exportRow encode table) fuel (w, 0) =
      some ((matching (snap.table table) []).foldlM
        (fun s r => exportRow encode table s r.2) (w, 0)) :=
    eachRow_all enough (w, 0)
  rw [show Clause.blank = Clause.all ([] : List (Cond Row)) from rfl, scanned, foldlM_exportRow]
  have size : (matching (snap.table table) []).length = (snap.table table).rows.length :=
    RowTable.length_select_all
  rw [size, Nat.zero_add]
  rfl

theorem exportFrom_all (tables : List Text)
    (enough : ∀ table ∈ tables, (snap.table table).rows.length < fuel) (out : ExportReport)
    (w : σ) :
    exportFrom encode snap fuel tables out w =
      some (((snap.rowLines tables).foldlM encode w).map fun w =>
        (w, { out with rows := out.rows ++ snap.counts tables })) := by
  induction tables generalizing out w with
  | nil => simp [exportFrom, Snapshot.rowLines, Snapshot.counts, Except.map, pure, Except.pure]
  | cons table tables ih =>
      have here := eachRow_exportRow encode table (enough table List.mem_cons_self) w
      have later := ih fun other member => enough other (List.mem_cons_of_mem _ member)
      rw [exportFrom, here, Snapshot.rowLines, List.flatMap_cons, List.foldlM_append]
      cases ((snap.rows table).map (ExportLine.row table)).foldlM encode w with
      | error e => rfl
      | ok w' =>
          dsimp only [Except.map]
          rw [later]
          simp only [Snapshot.counts, List.map_cons, List.append_assoc, List.singleton_append]
          rfl

/-- With more fuel than the largest table has rows, an export writes the archive line by line
    until the writer fails, and reports the sizes of the tables. -/
theorem exportArchive_all (enough : ∀ table ∈ exportTables, (snap.table table).rows.length < fuel)
    (w : σ) :
    exportArchive encode snap fuel w =
      some ((snap.archive.foldlM encode w).map fun w => (w, snap.report)) := by
  rw [exportArchive, Snapshot.archive, List.foldlM_cons]
  dsimp only
  rw [show snap.report.format = ({} : ExportReport).format from rfl,
    show snap.report.version = ({} : ExportReport).version from rfl]
  cases encode w (.header ({} : ExportReport).format ({} : ExportReport).version snap.schema) with
  | error e => rfl
  | ok w' =>
      dsimp only
      have tables := exportFrom_all encode exportTables enough {} w'
      rw [show (Bind.bind (Except.ok w') fun s => List.foldlM encode s
          (snap.rowLines exportTables ++ [.footer snap.report.rows])) =
        List.foldlM encode w' (snap.rowLines exportTables ++ [.footer snap.report.rows]) from rfl,
        tables, List.foldlM_append]
      cases (snap.rowLines exportTables).foldlM encode w' with
      | error e => rfl
      | ok w'' =>
          dsimp only [Except.map, List.nil_append]
          rw [show (Bind.bind (Except.ok w'') fun s => List.foldlM encode s
              [.footer snap.report.rows]) =
            List.foldlM encode w'' [.footer snap.report.rows] from rfl, List.foldlM_cons]
          rw [show snap.report.rows = snap.counts exportTables from rfl]
          cases encode w'' (.footer (snap.counts exportTables)) with
          | error e => rfl
          | ok last => rfl

end Export

/-- `eachRow` under conditions joined by `AND`, or none, and `Export`: the callback sees each
    matching row once, in ascending order, and the footer has the counts of the rows written and of
    the tables. -/
theorem each_row_exact {ρ σ τ ε : Type} (t : RowTable ρ) (conds : List (Cond ρ))
    (fn : σ → ρ → Except ε σ) (s : σ) (encode : τ → ExportLine → Except ε τ) (snap : Snapshot)
    (w : τ) :
    (∀ fuel, t.rows.length < fuel →
      eachRow t (.all conds) fn fuel s =
        some ((matching t conds).foldlM (fun s row => fn s row.2) s)) ∧
    (matching t conds).Perm (t.rows.filter fun row => conds.all fun cond => cond row) ∧
    (matching t conds).Pairwise (fun a b => a.1 < b.1) ∧
    (∀ fuel, (∀ table ∈ exportTables, (snap.table table).rows.length < fuel) →
      exportArchive encode snap fuel w =
        some ((snap.archive.foldlM encode w).map fun w => (w, snap.report))) ∧
    (∀ table, (snap.rows table).length = (snap.table table).rows.length) :=
  ⟨fun _ enough => eachRow_all enough s, RowTable.select_perm, RowTable.select_ascending,
    fun _ enough => exportArchive_all encode enough w, Snapshot.length_rows⟩

/-- One row. -/
def oneRow : RowTable Unit := ⟨[(1, ())], by simp⟩

/-- Two conditions joined by `OR`. -/
def eitherClause : Clause Unit := ⟨[[fun _ => true], [fun _ => true]]⟩

/-- The comparison binds to the second condition only, so the first selects the row for ever. -/
theorem eachRowFrom_either (fuel : Nat) (count : Nat) :
    eachRowFrom (ε := Unit) oneRow eitherClause (fun n _ => .ok (n + 1)) fuel (some 1) count =
      none := by
  induction fuel generalizing count with
  | zero => rfl
  | succ fuel ih =>
      have again : oneRow.first (eitherClause.resumed (some 1)).selects = some (1, ()) := by decide
      rw [eachRowFrom, again]
      exact ih (count + 1)

/-- A clause with an outermost `OR` is read without end: its row comes back at every query. -/
theorem each_row_either_diverges :
    (oneRow.rows.filter eitherClause.selects).length = 1 ∧
      ∀ fuel, eachRow (ε := Unit) oneRow eitherClause (fun n _ => .ok (n + 1)) fuel 0 = none := by
  refine ⟨by decide, fun fuel => ?_⟩
  cases fuel with
  | zero => rfl
  | succ fuel =>
      have row : oneRow.first (eitherClause.resumed none).selects = some (1, ()) := by decide
      rw [eachRow, eachRowFrom, row]
      exact eachRowFrom_either fuel 1

end Cmpath
