import Mathlib.Data.List.Find
import Cmpath.Lib.Table
import Cmpath.Lib.Text

/-!
# A relational catalogue

The tables, indexes, triggers and views of a database as SQLite keeps them, the statements that
change them, and what `PRAGMA foreign_key_check` finds. What the triggers of a table do is a
parameter. A statement either fails or has all of its effect.
-/

namespace Lib.Sql

/-- A value of one of the five storage classes. -/
inductive Value where
  | null
  | integer (n : Int)
  | real (bits : Nat)
  | text (t : Text)
  | blob (bytes : List Nat)
  deriving DecidableEq

/-- A column. A `rowid` column (`INTEGER PRIMARY KEY`) holds no NULL, whatever its flag. -/
structure Column where
  name : String
  kind : String
  notNull : Bool := false
  rowid : Bool := false
  deriving DecidableEq

/-- A `CHECK` constraint. -/
inductive Check where
  | among (column : String) (values : List Value)
  | apart (a b : String)
  | counter (column : String)
  deriving DecidableEq

/-- `FOREIGN KEY(columns) REFERENCES parent(parentColumns)`, checked at once. -/
structure ForeignKey where
  columns : List String
  parent : String
  parentColumns : List String
  deriving DecidableEq

/-- What `CREATE TABLE` declares. -/
structure Decl where
  columns : List Column
  keys : List (List String)
  checks : List Check := []
  foreignKeys : List ForeignKey := []
  deriving DecidableEq

/-- One value for each column. -/
abbrev Row := List Value

namespace Decl

variable (d : Decl)

def names : List String := d.columns.map Column.name

/-- The value of a row in a column. -/
def get (row : Row) (column : String) : Value := ((d.names.zip row).lookup column).getD .null

/-- The values of a row in several columns. -/
def pick (row : Row) (columns : List String) : Row := columns.map (d.get row)

/-- The row with these values in these columns and NULL in the others. -/
def build (columns : List String) (values : Row) : Row :=
  d.names.map fun c => ((columns.zip values).lookup c).getD .null

/-- The row with another value in a column. -/
def set (row : Row) (column : String) (value : Value) : Row :=
  d.names.map fun c => if c == column then value else d.get row c

end Decl

/-- Whether a row passes the check. -/
def Check.passes (d : Decl) (row : Row) : Check → Bool
  | .among column values => d.get row column == .null || values.contains (d.get row column)
  | .apart a b => d.get row a == .null || d.get row a != d.get row b
  | .counter column =>
      match d.get row column with
      | .integer n => decide (0 ≤ n)
      | _ => false

/-- A table; every row fits the columns. -/
structure Table where
  name : String
  decl : Decl
  rows : List Row
  fits : ∀ row ∈ rows, row.length = decl.columns.length
  deriving DecidableEq

/-- An index; a partial one holds the rows with a value in a column. -/
structure Index where
  name : String
  table : String
  columns : List String
  unique : Bool := false
  filter : Option (String × Value) := none
  deriving DecidableEq

inductive Event where
  | insert
  | update
  | delete
  deriving DecidableEq

/-- A trigger; `reads` are the tables its program names. -/
structure Trigger where
  name : String
  table : String
  event : Event
  program : String
  reads : List String := []
  deriving DecidableEq

structure View where
  name : String
  reads : List String
  deriving DecidableEq

structure Catalog where
  tables : List Table := []
  indexes : List Index := []
  triggers : List Trigger := []
  views : List View := []
  userVersion : Int := 0
  deriving DecidableEq

/-- Why a statement fails. -/
inductive SqlError where
  | noSuchTable (name : String)
  | alreadyExists (name : String)
  | constraint (kind : String)
  | dangling (name : String)
  | transaction
  | fault (code : Nat)
  deriving DecidableEq

/-- What the triggers of a table do when a row is written. -/
abbrev Fire := String → Event → Row → Catalog → Except SqlError Catalog

/-- A key of a row is free: it has a NULL, or no row has the same values. -/
def Decl.keyFree (d : Decl) (rows : List Row) (row : Row) (key : List String) : Bool :=
  (d.pick row key).contains .null || !rows.any fun old => d.pick old key == d.pick row key

/-- A row is in an index. -/
def Index.holds (i : Index) (d : Decl) (row : Row) : Bool :=
  match i.filter with
  | none => true
  | some (column, value) => d.get row column == value

/-- A row is free in an index. -/
def Index.free (d : Decl) (rows : List Row) (row : Row) (i : Index) : Bool :=
  !i.unique || !i.holds d row || d.keyFree (rows.filter (i.holds d)) row i.columns

namespace Catalog

variable (c : Catalog)

def table? (name : String) : Option Table := c.tables.find? (·.name == name)

def hasTable (name : String) : Bool := c.tables.any (·.name == name)

def hasView (name : String) : Bool := c.views.any (·.name == name)

def hasIndex (name : String) : Bool := c.indexes.any (·.name == name)

def hasTrigger (name : String) : Bool := c.triggers.any (·.name == name)

/-- A table has triggers for an event. -/
def armed (table : String) (event : Event) : Bool :=
  c.triggers.any fun t => t.table == table && t.event == event

/-! ## Constraints -/

/-- The constraint that keeps a row out of a table with these rows. -/
def refusal (table : Table) (rows : List Row) (row : Row) : Option SqlError :=
  if table.decl.columns.any fun col => (col.notNull || col.rowid) && table.decl.get row col.name == .null then
    some (.constraint "NOT NULL")
  else if !table.decl.checks.all (Check.passes table.decl row) then some (.constraint "CHECK")
  else if !table.decl.keys.all (table.decl.keyFree rows row) then some (.constraint "UNIQUE")
  else if !(c.indexes.filter (·.table == table.name)).all (Index.free table.decl rows row) then
    some (.constraint "UNIQUE")
  else none

/-- A foreign key of a row has its parent. -/
def satisfied (d : Decl) (row : Row) (k : ForeignKey) : Bool :=
  (d.pick row k.columns).contains .null ||
    match c.table? k.parent with
    | none => false
    | some p => p.rows.any fun old => p.decl.pick old k.parentColumns == d.pick row k.columns

/-- `PRAGMA foreign_key_check`. -/
def violations : List (String × Row × ForeignKey) :=
  c.tables.flatMap fun t => t.rows.flatMap fun row =>
    (t.decl.foreignKeys.filter fun k => !c.satisfied t.decl row k).map fun k => (t.name, row, k)

/-! ## Tables -/

/-- Put a table in the place of the one with its name. -/
def setTable (t : Table) : Catalog :=
  { c with tables := Lib.Table.replace (·.name == t.name) t c.tables }

/-- `DROP TABLE`, without its implicit `DELETE`. -/
def drop (name : String) : Catalog :=
  { c with
    tables := c.tables.filter (·.name != name)
    indexes := c.indexes.filter (·.table != name)
    triggers := c.triggers.filter (·.table != name) }

/-- A row references this table. -/
def referenced (name : String) : Bool :=
  c.tables.any fun t => t.decl.foreignKeys.any fun k =>
    k.parent == name && t.rows.any fun row => !(t.decl.pick row k.columns).contains .null

end Catalog

/-- References to a renamed table follow it. -/
def ForeignKey.repoint (old new : String) (k : ForeignKey) : ForeignKey :=
  if k.parent == old then { k with parent := new } else k

def Decl.repoint (old new : String) (d : Decl) : Decl :=
  { d with foreignKeys := d.foreignKeys.map (ForeignKey.repoint old new) }

def Table.repoint (old new : String) (t : Table) : Table :=
  { t with decl := t.decl.repoint old new }

/-- `ALTER TABLE … RENAME TO` on one table. -/
def Table.rename (old new : String) (t : Table) : Table :=
  if t.name == old then { t.repoint old new with name := new } else t.repoint old new

namespace Catalog

variable (c : Catalog)

/-- `ALTER TABLE old RENAME TO new`. -/
def rename (old new : String) : Catalog :=
  { c with
    tables := c.tables.map (Table.rename old new)
    indexes := c.indexes.map fun i => if i.table == old then { i with table := new } else i
    triggers := c.triggers.map fun t => if t.table == old then { t with table := new } else t }

/-- A view or a trigger that names what is not there. -/
def dangling : Option String :=
  let there name := c.hasTable name || c.hasView name
  ((c.views.find? fun v => !v.reads.all there).map View.name).or
    ((c.triggers.find? fun t => !t.reads.all there).map Trigger.name)

end Catalog

/-! ## Statements -/

inductive Expr where
  | column (name : String)
  | const (value : Value)
  deriving DecidableEq

def Expr.eval (d : Decl) (row : Row) : Expr → Value
  | .column name => d.get row name
  | .const value => value

/-- The statements that change a database. -/
inductive Stmt where
  | createTable (name : String) (decl : Decl) (ifNotExists : Bool)
  | dropTable (name : String) (ifExists : Bool)
  | renameTable (old new : String)
  | createIndex (index : Index) (ifNotExists : Bool)
  | createTrigger (trigger : Trigger) (ifNotExists : Bool)
  | insert (orIgnore : Bool) (table : String) (columns : List String) (values : List Expr)
      (source : Option String)
  | update (table : String) (column : String) (value : Value) (key : String) (is : Value)
  | setUserVersion (n : Int)
  deriving DecidableEq

section Run

variable (fire : Fire)

/-- Add one row to a table. -/
def insertRow (orIgnore : Bool) (name : String) (columns : List String) (values : Row) (c : Catalog) :
    Except SqlError Catalog := do
  let c ← match c.table? name with
    | none => .error (.noSuchTable name)
    | some t =>
        if c.armed name .insert then fire name .insert (t.decl.build columns values) c else .ok c
  match c.table? name with
  | none => .error (.noSuchTable name)
  | some t =>
      match c.refusal t t.rows (t.decl.build columns values) with
      | some e => if orIgnore then .ok c else .error e
      | none =>
          .ok (c.setTable
            { t with
              rows := t.rows ++ [t.decl.build columns values]
              fits := by
                intro row member
                rcases List.mem_append.mp member with old | new
                · exact t.fits row old
                · rw [List.mem_singleton.mp new, Decl.build, List.length_map, Decl.names,
                    List.length_map] })

/-- Add rows one after the other. -/
def insertRows (orIgnore : Bool) (name : String) (columns : List String) :
    List Row → Catalog → Except SqlError Catalog
  | [], c => .ok c
  | values :: rest, c => do
      let c ← insertRow fire orIgnore name columns values c
      insertRows orIgnore name columns rest c

/-- The rows a source gives. -/
def Catalog.select (c : Catalog) (values : List Expr) : Option String → Except SqlError (List Row)
  | none => .ok [values.map (Expr.eval ⟨[], [], [], []⟩ [])]
  | some name =>
      match c.table? name with
      | none => .error (.noSuchTable name)
      | some t => .ok (t.rows.map fun row => values.map (Expr.eval t.decl row))

/-- Change a row that matches. -/
def Table.change (t : Table) (column : String) (value : Value) (key : String) (is : Value)
    (row : Row) : Row :=
  if t.decl.get row key == is then t.decl.set row column value else row

/-- The constraint that keeps rows from being changed, oldest first. -/
def Catalog.updateRefusal (c : Catalog) (t : Table) (column : String) (value : Value) (key : String)
    (is : Value) : List Row → List Row → Option SqlError
  | _, [] => none
  | done, row :: rest =>
      if t.decl.get row key == is then
        (c.refusal t (done ++ rest) (t.decl.set row column value)).or
          (Catalog.updateRefusal c t column value key is (done ++ [t.decl.set row column value]) rest)
      else Catalog.updateRefusal c t column value key is (done ++ [row]) rest

/-- The table after an update. -/
def Table.update (t : Table) (column : String) (value : Value) (key : String) (is : Value) : Table :=
  { t with
    rows := t.rows.map (t.change column value key is)
    fits := by
      intro row member
      obtain ⟨old, there, rfl⟩ := List.mem_map.mp member
      unfold Table.change
      split
      · simp [Decl.set, Decl.names]
      · exact t.fits old there }

/-- `UPDATE table SET column=value WHERE key=is`. -/
def updateTable (name column : String) (value : Value) (key : String) (is : Value) (c : Catalog) :
    Except SqlError Catalog := do
  let c ← match c.table? name with
    | none => .error (.noSuchTable name)
    | some t =>
        (t.rows.filter fun row => t.decl.get row key == is).foldlM
          (fun c row => if c.armed name .update then fire name .update row c else .ok c) c
  match c.table? name with
  | none => .error (.noSuchTable name)
  | some t =>
      match c.updateRefusal t column value key is [] t.rows with
      | some e => .error e
      | none => .ok (c.setTable (t.update column value key is))

/-- A statement fails if it leaves a row without its parent that had one. -/
def enforce (foreignKeys : Bool) (before after : Catalog) : Except SqlError Catalog :=
  if foreignKeys && !after.violations.all before.violations.contains then
    .error (.constraint "FOREIGN KEY")
  else .ok after

/-- `CREATE TABLE`. -/
def Catalog.createTable (c : Catalog) (name : String) (decl : Decl) : Catalog :=
  { c with tables := c.tables ++ [⟨name, decl, [], fun _ none_ => absurd none_ List.not_mem_nil⟩] }

/-- The rows of a table are free in a unique index. -/
def indexable (d : Decl) (i : Index) : List Row → Bool
  | [] => true
  | row :: rest => Index.free d rest row i && indexable d i rest

/-- What a statement does. -/
def Stmt.run (foreignKeys : Bool) (c : Catalog) : Stmt → Except SqlError Catalog
  | .createTable name decl ifNotExists =>
      if c.hasTable name || c.hasView name then
        if ifNotExists then .ok c else .error (.alreadyExists name)
      else if c.hasIndex name then .error (.alreadyExists name)
      else .ok (c.createTable name decl)
  | .dropTable name ifExists =>
      if c.hasTable name then
        if foreignKeys && c.referenced name then .error (.constraint "FOREIGN KEY")
        else .ok (c.drop name)
      else if ifExists && !c.hasView name then .ok c
      else .error (.noSuchTable name)
  | .renameTable old new =>
      if !c.hasTable old then .error (.noSuchTable old)
      else if c.hasTable new || c.hasView new || c.hasIndex new then .error (.alreadyExists new)
      else
        match (c.rename old new).dangling with
        | some name => .error (.dangling name)
        | none => .ok (c.rename old new)
  | .createIndex index ifNotExists =>
      match c.table? index.table with
      | none => .error (.noSuchTable index.table)
      | some t =>
          if c.hasTable index.name || c.hasView index.name then .error (.alreadyExists index.name)
          else if c.hasIndex index.name then
            if ifNotExists then .ok c else .error (.alreadyExists index.name)
          else if indexable t.decl index t.rows then .ok { c with indexes := c.indexes ++ [index] }
          else .error (.constraint "UNIQUE")
  | .createTrigger trigger ifNotExists =>
      if !c.hasTable trigger.table then .error (.noSuchTable trigger.table)
      else if c.hasTrigger trigger.name then
        if ifNotExists then .ok c else .error (.alreadyExists trigger.name)
      else .ok { c with triggers := c.triggers ++ [trigger] }
  | .insert orIgnore name columns values source =>
      if !c.hasTable name then .error (.noSuchTable name)
      else do
        let rows ← c.select values source
        let after ← insertRows fire orIgnore name columns rows c
        enforce foreignKeys c after
  | .update name column value key is => do
      let after ← updateTable fire name column value key is c
      enforce foreignKeys c after
  | .setUserVersion n => .ok { c with userVersion := n }

/-- The statements one after the other. -/
def runAll (foreignKeys : Bool) : List Stmt → Catalog → Except SqlError Catalog
  | [], c => .ok c
  | s :: rest, c => do
      let c ← s.run fire foreignKeys c
      runAll foreignKeys rest c

end Run

/-- A list of statements that ran, its first statement apart. -/
theorem runAll_cons {fire : Fire} {foreignKeys : Bool} {s : Stmt} {rest : List Stmt} {c c' : Catalog} :
    runAll fire foreignKeys (s :: rest) c = .ok c' ↔
      ∃ mid, s.run fire foreignKeys c = .ok mid ∧ runAll fire foreignKeys rest mid = .ok c' := by
  show (s.run fire foreignKeys c >>= runAll fire foreignKeys rest) = _ ↔ _
  cases s.run fire foreignKeys c with
  | error e => simp [bind, Except.bind]
  | ok mid => simp [bind, Except.bind]

theorem runAll_append {fire : Fire} {foreignKeys : Bool} {first rest : List Stmt} {c c' : Catalog} :
    runAll fire foreignKeys (first ++ rest) c = .ok c' ↔
      ∃ mid, runAll fire foreignKeys first c = .ok mid ∧ runAll fire foreignKeys rest mid = .ok c' := by
  induction first generalizing c with
  | nil => simp [runAll]
  | cons s first ih =>
    rw [List.cons_append, runAll_cons]
    constructor
    · rintro ⟨d, head, tail⟩
      obtain ⟨mid, before, after⟩ := ih.mp tail
      exact ⟨mid, runAll_cons.mpr ⟨d, head, before⟩, after⟩
    · rintro ⟨mid, before, after⟩
      obtain ⟨d, head, before⟩ := runAll_cons.mp before
      exact ⟨d, head, ih.mpr ⟨mid, before, after⟩⟩

/-! ## Lookups -/

namespace Catalog

variable {c : Catalog} {name n : String} {t : Table} {d : Decl}

theorem table_eq {u : Table} (name : t.name = u.name) (decl : t.decl = u.decl)
    (rows : t.rows = u.rows) : t = u := by
  cases t
  cases u
  cases name
  cases decl
  cases rows
  rfl

theorem table?_name (h : c.table? n = some t) : t.name = n := by
  simpa using List.find?_some h

theorem hasTable_iff : c.hasTable n = true ↔ ∃ t, c.table? n = some t := by
  unfold hasTable table?
  rw [← Option.isSome_iff_exists, List.find?_isSome, List.any_eq_true]

theorem hasTable_false : c.hasTable n = false ↔ c.table? n = none := by
  rw [← Bool.not_eq_true, hasTable_iff, Option.eq_none_iff_forall_ne_some]
  simp

theorem table?_createTable (absent : c.table? name = none) :
    (c.createTable name d).table? n =
      if n = name then some ⟨name, d, [], fun _ none_ => absurd none_ List.not_mem_nil⟩
      else c.table? n := by
  unfold table? createTable at *
  rw [List.find?_append]
  by_cases own : n = name
  · subst own
    rw [absent, if_pos rfl]
    simp
  · rw [if_neg own, List.find?_cons_of_neg (by simpa using Ne.symm own)]
    simp

theorem table?_drop : (c.drop name).table? n = if n = name then none else c.table? n := by
  unfold table? drop
  rw [List.find?_filter]
  by_cases own : n = name
  · rw [if_pos own, List.find?_eq_none]
    subst own
    simp
  · rw [if_neg own]
    congr 1
    funext t
    by_cases hit : t.name = n
    · simp [hit, own]
    · simp [hit]

theorem table?_setTable_self (h : c.table? n = some t) {new : Table} (same : new.name = n) :
    (c.setTable new).table? n = some new := by
  subst same
  exact Lib.Table.find?_replace_self h rfl

theorem table?_setTable_ne {new : Table} (other : n ≠ new.name) :
    (c.setTable new).table? n = c.table? n := Lib.Table.find?_replace_ne rfl other

theorem setTable_self (h : c.table? t.name = some t) : c.setTable t = c := by
  unfold setTable
  rw [Lib.Table.replace_of_find? h]

/-- A renamed table is found under its new name. -/
theorem table?_rename_new {old new : String} (absent : c.table? new = none) :
    (c.rename old new).table? new = (c.table? old).map (Table.rename old new) := by
  unfold table? rename at *
  rw [List.find?_map]
  congr 1
  have none_ := List.find?_eq_none.mp absent
  refine List.find?_congr fun t member => ?_
  have fresh : t.name ≠ new := by simpa using none_ t member
  unfold Table.rename Function.comp
  by_cases hit : t.name = old
  · simp [hit]
  · simp [hit, fresh, Table.repoint]

theorem table?_rename_old {old new : String} (apart : old ≠ new) :
    (c.rename old new).table? old = none := by
  unfold table? rename
  rw [List.find?_eq_none]
  intro t member
  obtain ⟨u, _, rfl⟩ := List.mem_map.mp member
  unfold Table.rename
  by_cases hit : u.name = old
  · simp [hit, Ne.symm apart]
  · simp [hit, Table.repoint]

theorem table?_rename_other {old new : String} (hold : n ≠ old) (hnew : n ≠ new) :
    (c.rename old new).table? n = (c.table? n).map (Table.repoint old new) := by
  unfold table? rename
  rw [List.find?_map]
  have same : ((fun t : Table => t.name == n) ∘ Table.rename old new) = fun t => t.name == n := by
    funext t
    unfold Table.rename Function.comp
    by_cases hit : t.name = old
    · simp [hit, Ne.symm hold, Ne.symm hnew]
    · simp [hit, Table.repoint]
  rw [same]
  cases found : c.tables.find? (fun t => t.name == n) with
  | none => rfl
  | some t =>
    have own : t.name = n := by simpa using List.find?_some found
    unfold Table.rename
    simp [own, hold]

end Catalog

/-! ## Refused rows -/

section Refusal

variable {c c' : Catalog} {t t' : Table} {d : Decl} {rows rows' : List Row} {row : Row}
  {key : List String}

theorem Decl.keyFree_mono (subset : ∀ r ∈ rows, r ∈ rows') (h : d.keyFree rows' row key = true) :
    d.keyFree rows row key = true := by
  simp only [Decl.keyFree, Bool.or_eq_true, Bool.not_eq_true', List.any_eq_false] at h ⊢
  exact h.imp_right fun free r member => free r (subset r member)

theorem Index.free_mono {i : Index} (subset : ∀ r ∈ rows, r ∈ rows')
    (h : Index.free d rows' row i = true) : Index.free d rows row i = true := by
  simp only [Index.free, Bool.or_eq_true] at h ⊢
  refine h.imp_right (Decl.keyFree_mono fun r member => ?_)
  obtain ⟨there, holds⟩ := List.mem_filter.mp member
  exact List.mem_filter.mpr ⟨subset r there, holds⟩

theorem Catalog.refusal_none : c.refusal t rows row = none ↔
    (∀ col ∈ t.decl.columns, (col.notNull || col.rowid) = true → t.decl.get row col.name ≠ .null) ∧
      (∀ k ∈ t.decl.checks, k.passes t.decl row = true) ∧
      (∀ key ∈ t.decl.keys, t.decl.keyFree rows row key = true) ∧
      ∀ i ∈ c.indexes, i.table = t.name → i.free t.decl rows row = true := by
  unfold Catalog.refusal
  split
  · rename_i null
    obtain ⟨col, member, hit⟩ := List.any_eq_true.mp null
    simp only [Bool.and_eq_true, beq_iff_eq] at hit
    simp only [reduceCtorEq, false_iff, not_and]
    intro solid
    exact absurd hit.2 (solid col member hit.1)
  rename_i null
  have solid : ∀ col ∈ t.decl.columns, (col.notNull || col.rowid) = true →
      t.decl.get row col.name ≠ .null := by
    intro col member flag none_
    exact null (List.any_eq_true.mpr ⟨col, member, by simp [flag, none_]⟩)
  split
  · rename_i check
    simp only [Bool.not_eq_true', List.all_eq_false] at check
    obtain ⟨k, member, fails⟩ := check
    simp only [reduceCtorEq, false_iff, not_and]
    intro _ passes
    exact absurd (passes k member) fails
  rename_i check
  simp only [Bool.not_eq_true', Bool.not_eq_false, List.all_eq_true] at check
  split
  · rename_i taken
    simp only [Bool.not_eq_true', List.all_eq_false] at taken
    obtain ⟨k, member, fails⟩ := taken
    simp only [reduceCtorEq, false_iff, not_and]
    intro _ _ free
    exact absurd (free k member) fails
  rename_i free
  simp only [Bool.not_eq_true', Bool.not_eq_false, List.all_eq_true] at free
  split
  · rename_i taken
    simp only [Bool.not_eq_true', List.all_eq_false, List.mem_filter, beq_iff_eq] at taken
    obtain ⟨i, ⟨member, own⟩, fails⟩ := taken
    simp only [reduceCtorEq, false_iff, not_and]
    intro _ _ _ indexed
    exact fails (indexed i member own)
  · rename_i indexed
    simp only [Bool.not_eq_true', Bool.not_eq_false, List.all_eq_true, List.mem_filter,
      beq_iff_eq] at indexed
    simp only [true_iff]
    exact ⟨solid, check, free, fun i member own => indexed i ⟨member, own⟩⟩

/-- A refused row is refused by more rows. -/
theorem Catalog.refusal_mono (name : t'.name = t.name) (decl : t'.decl = t.decl)
    (indexes : ∀ i ∈ c.indexes, i ∈ c'.indexes) (subset : ∀ r ∈ rows, r ∈ rows')
    (h : c.refusal t rows row ≠ none) : c'.refusal t' rows' row ≠ none := by
  intro free
  refine h (refusal_none.mpr ?_)
  obtain ⟨solid, check, keys, indexed⟩ := refusal_none.mp free
  rw [decl] at solid check keys indexed
  rw [name] at indexed
  exact ⟨solid, check, fun key member => Decl.keyFree_mono subset (keys key member),
    fun i member own => Index.free_mono subset (indexed i (indexes i member) own)⟩

/-- No column of the key holds a NULL. -/
def Decl.Solid (d : Decl) (key : List String) : Prop :=
  ∀ name ∈ key, ∃ col ∈ d.columns, col.name = name ∧ (col.notNull || col.rowid) = true

instance Decl.decidableSolid (d : Decl) (key : List String) : Decidable (d.Solid key) :=
  inferInstanceAs (Decidable (∀ name ∈ key, ∃ col ∈ d.columns, col.name = name ∧
    (col.notNull || col.rowid) = true))

/-- A row whose key is taken is refused. -/
theorem Catalog.refused_of_key (member : key ∈ t.decl.keys) (solid : t.decl.Solid key)
    (taken : ∃ old ∈ rows, t.decl.pick old key = t.decl.pick row key) :
    c.refusal t rows row ≠ none := by
  intro free
  obtain ⟨nonNull, _, keys, _⟩ := refusal_none.mp free
  have own := keys key member
  simp only [Decl.keyFree, Bool.or_eq_true, Bool.not_eq_true', List.any_eq_false, beq_iff_eq] at own
  rcases own with null | other
  · simp only [List.contains_iff_mem, Decl.pick, List.mem_map] at null
    obtain ⟨name, inside, none_⟩ := null
    obtain ⟨col, there, rfl, flag⟩ := solid name inside
    exact nonNull col there flag none_
  · obtain ⟨old, there, same⟩ := taken
    exact other old there same

end Refusal

/-! ## Inserted rows -/

theorem enforce_ok {on : Bool} {before after result : Catalog} :
    enforce on before after = .ok result ↔
      result = after ∧ (on = true → ∀ v ∈ after.violations, v ∈ before.violations) := by
  unfold enforce
  cases on with
  | false => simp [eq_comm]
  | true =>
    by_cases kept : after.violations.all before.violations.contains = true
    · have all : ∀ v ∈ after.violations, v ∈ before.violations := by simpa using kept
      simp only [kept, Bool.not_true, Bool.and_false, Bool.false_eq_true, if_false, Except.ok.injEq]
      exact ⟨fun same => ⟨same.symm, fun _ => all⟩, fun h => h.1.symm⟩
    · have lost : ¬ ∀ v ∈ after.violations, v ∈ before.violations := fun all =>
        kept (List.all_eq_true.mpr fun v member => List.contains_iff_mem.mpr (all v member))
      simp only [kept, Bool.not_false, Bool.and_self, if_true, reduceCtorEq, true_imp_iff, false_iff,
        not_and]
      exact fun _ => lost

/-- Rows were added to a table, and nothing else changed. -/
structure Inserted (name : String) (new : List Row) (c c' : Catalog) : Prop where
  table : ∃ t t', c.table? name = some t ∧ c'.table? name = some t' ∧ t'.decl = t.decl ∧
    t'.rows = t.rows ++ new
  others : ∀ n, n ≠ name → c'.table? n = c.table? n
  indexes : c'.indexes = c.indexes
  triggers : c'.triggers = c.triggers
  views : c'.views = c.views

section Insert

variable {fire : Fire} {orIgnore : Bool} {name : String} {columns : List String} {values : Row}
  {c c' : Catalog}

theorem insertRow_inserted (unarmed : c.armed name .insert = false)
    (h : insertRow fire orIgnore name columns values c = .ok c') :
    ∃ t new, c.table? name = some t ∧ Inserted name new c c' ∧
      ((new = [t.decl.build columns values] ∧ c.refusal t t.rows (t.decl.build columns values) = none) ∨
        (new = [] ∧ orIgnore = true ∧ c' = c ∧
          c.refusal t t.rows (t.decl.build columns values) ≠ none)) := by
  unfold insertRow at h
  cases found : c.table? name with
  | none =>
    simp only [found] at h
    cases h
  | some t =>
    simp only [found, unarmed, Bool.false_eq_true, if_false] at h
    change (match c.table? name with
      | none => _
      | some t => _) = _ at h
    simp only [found] at h
    cases refused : c.refusal t t.rows (t.decl.build columns values) with
    | some e =>
      simp only [refused] at h
      cases orIgnore with
      | false => cases h
      | true =>
        cases h
        exact ⟨t, [], rfl, ⟨⟨t, t, found, found, rfl, (List.append_nil _).symm⟩, fun _ _ => rfl, rfl,
          rfl, rfl⟩, .inr ⟨rfl, rfl, rfl, by simp [refused]⟩⟩
    | none =>
      simp only [refused] at h
      cases h
      have own := Catalog.table?_name found
      refine ⟨t, _, rfl, ⟨⟨t, _, found, Catalog.table?_setTable_self found own, rfl, rfl⟩, ?_, rfl, rfl,
        rfl⟩, .inl ⟨rfl, refused⟩⟩
      intro n other
      exact Catalog.table?_setTable_ne (by simpa [own] using other)

theorem Inserted.refl {t : Table} (found : c.table? name = some t) : Inserted name [] c c :=
  ⟨⟨t, t, found, found, rfl, (List.append_nil _).symm⟩, fun _ _ => rfl, rfl, rfl, rfl⟩

theorem Inserted.trans {c₁ : Catalog} {new more : List Row} (h : Inserted name new c c₁)
    (then_ : Inserted name more c₁ c') : Inserted name (new ++ more) c c' := by
  obtain ⟨t, t₁, found, found₁, decl₁, rows₁⟩ := h.table
  obtain ⟨t₁', t', found₁', found', decl', rows'⟩ := then_.table
  rw [found₁] at found₁'
  cases found₁'
  refine ⟨⟨t, t', found, found', decl'.trans decl₁, ?_⟩,
    fun n other => (then_.others n other).trans (h.others n other),
    then_.indexes.trans h.indexes, then_.triggers.trans h.triggers, then_.views.trans h.views⟩
  rw [rows', rows₁, List.append_assoc]

theorem insertRows_inserted {rows : List Row} {t : Table} (unarmed : c.armed name .insert = false)
    (found : c.table? name = some t)
    (h : insertRows fire orIgnore name columns rows c = .ok c') :
    ∃ new, Inserted name new c c' ∧
      (∀ r ∈ new, (∃ values ∈ rows, r = t.decl.build columns values) ∧
        c.refusal t t.rows r = none) ∧
      (orIgnore = false → new = rows.map (t.decl.build columns)) ∧
      ((∃ key ∈ t.decl.keys, t.decl.Solid key) → ∀ t', c'.table? name = some t' →
        ∀ values ∈ rows, c'.refusal t' t'.rows (t.decl.build columns values) ≠ none) := by
  induction rows generalizing c t with
  | nil =>
    cases h
    exact ⟨[], .refl found, nofun, fun _ => rfl, nofun⟩
  | cons values rest ih =>
    change (insertRow fire orIgnore name columns values c >>=
      insertRows fire orIgnore name columns rest) = _ at h
    cases first : insertRow fire orIgnore name columns values c with
    | error e =>
      rw [first] at h
      cases h
    | ok c₁ =>
      rw [first] at h
      change insertRows fire orIgnore name columns rest c₁ = _ at h
      obtain ⟨t₀, new, found₀, inserted, fate⟩ := insertRow_inserted unarmed first
      rw [found] at found₀
      cases found₀
      obtain ⟨_, t₁, found₀, found₁, decl₁, rows₁⟩ := inserted.table
      rw [found] at found₀
      cases found₀
      have unarmed₁ : c₁.armed name .insert = false := by
        unfold Catalog.armed at unarmed ⊢
        rw [inserted.triggers]
        exact unarmed
      obtain ⟨more, later, made, strict, settled⟩ := ih unarmed₁ found₁ h
      rw [decl₁] at made strict settled
      refine ⟨new ++ more, inserted.trans later, ?_, ?_, ?_⟩
      · intro r member
        rcases List.mem_append.mp member with this | that
        · rcases fate with ⟨rfl, free⟩ | ⟨rfl, _⟩
          · cases List.mem_singleton.mp this
            exact ⟨⟨values, List.mem_cons_self, rfl⟩, free⟩
          · cases this
        · obtain ⟨⟨v, inside, made⟩, free⟩ := made r that
          refine ⟨⟨v, List.mem_cons_of_mem _ inside, made⟩, ?_⟩
          by_contra refused
          refine Catalog.refusal_mono ?_ decl₁ (fun i member => ?_) (fun old there => ?_) refused free
          · exact (Catalog.table?_name found₁).trans (Catalog.table?_name found).symm
          · rw [inserted.indexes]
            exact member
          · rw [rows₁]
            exact List.mem_append_left _ there
      · intro isStrict
        rcases fate with ⟨rfl, _⟩ | ⟨_, ignore, _⟩
        · rw [strict isStrict]
          rfl
        · rw [isStrict] at ignore
          cases ignore
      · intro solid t' found' v inside
        rcases List.mem_cons.mp inside with rfl | inside
        · obtain ⟨_, t₂, found₂, found₂', decl₂, rows₂⟩ := later.table
          rw [found₁] at found₂
          cases found₂
          rw [found'] at found₂'
          cases found₂'
          rcases fate with ⟨rfl, _⟩ | ⟨rfl, _, rfl, refused⟩
          · obtain ⟨key, member, solid⟩ := solid
            have decl : t'.decl = t.decl := decl₂.trans decl₁
            rw [← decl] at member solid ⊢
            refine Catalog.refused_of_key member solid ⟨t'.decl.build columns v, ?_, rfl⟩
            rw [rows₂, rows₁, decl]
            exact List.mem_append_left _ (List.mem_append_right _ (List.mem_singleton_self _))
          · rw [found] at found₁
            cases found₁
            refine Catalog.refusal_mono ?_ decl₂ (fun i member => ?_) (fun r member => ?_) refused
            · exact (Catalog.table?_name found').trans (Catalog.table?_name found).symm
            · rw [later.indexes]
              exact member
            · rw [rows₂]
              exact List.mem_append_left _ member
        · exact settled solid t' found' v inside

/-- Refused rows that may be ignored change nothing. -/
theorem insertRows_settled {rows : List Row} {t : Table} (unarmed : c.armed name .insert = false)
    (found : c.table? name = some t)
    (refused : ∀ values ∈ rows, c.refusal t t.rows (t.decl.build columns values) ≠ none) :
    insertRows fire true name columns rows c = .ok c := by
  induction rows with
  | nil => rfl
  | cons values rest ih =>
    have later := ih fun v inside => refused v (List.mem_cons_of_mem _ inside)
    obtain ⟨e, hit⟩ := Option.ne_none_iff_exists'.mp (refused values List.mem_cons_self)
    have first : insertRow fire true name columns values c = .ok c := by
      unfold insertRow
      simp only [found, unarmed, Bool.false_eq_true, if_false]
      change (match c.table? name with
        | none => _
        | some t => _) = _
      simp only [found, hit, if_true]
    show (insertRow fire true name columns values c >>=
      insertRows fire true name columns rest) = _
    rw [first]
    exact later

/-- A successful `INSERT` adds its rows one after the other. -/
theorem Stmt.run_insert {foreignKeys : Bool} {exprs : List Expr} {source : Option String}
    (run : (Stmt.insert orIgnore name columns exprs source).run fire foreignKeys c = .ok c') :
    ∃ t rows, c.table? name = some t ∧ c.select exprs source = .ok rows ∧
      insertRows fire orIgnore name columns rows c = .ok c' ∧
      (foreignKeys = true → ∀ v ∈ c'.violations, v ∈ c.violations) := by
  cases here : c.hasTable name with
  | false =>
    simp only [Stmt.run, here, Bool.not_false, if_true] at run
    cases run
  | true =>
    obtain ⟨t, found⟩ := Catalog.hasTable_iff.mp here
    simp only [Stmt.run, here, Bool.not_true, Bool.false_eq_true, if_false] at run
    change (c.select exprs source >>= fun rows =>
      insertRows fire orIgnore name columns rows c >>= enforce foreignKeys c) = .ok c' at run
    cases got : c.select exprs source with
    | error e =>
      rw [got] at run
      cases run
    | ok rows =>
      rw [got] at run
      change (insertRows fire orIgnore name columns rows c >>= enforce foreignKeys c) = .ok c' at run
      cases inserting : insertRows fire orIgnore name columns rows c with
      | error e =>
        rw [inserting] at run
        cases run
      | ok after =>
        rw [inserting] at run
        obtain ⟨rfl, kept⟩ := enforce_ok.mp run
        exact ⟨t, rows, found, rfl, inserting, kept⟩

/-- A successful `UPDATE` of a table without triggers changes its rows. -/
theorem Stmt.run_update {foreignKeys : Bool} {column key : String} {value is : Value}
    (unarmed : c.armed name .update = false)
    (run : (Stmt.update name column value key is).run fire foreignKeys c = .ok c') :
    ∃ t, c.table? name = some t ∧ c' = c.setTable (t.update column value key is) ∧
      (foreignKeys = true → ∀ v ∈ c'.violations, v ∈ c.violations) := by
  change (updateTable fire name column value key is c >>= enforce foreignKeys c) = .ok c' at run
  unfold updateTable at run
  cases found : c.table? name with
  | none =>
    simp only [found] at run
    cases run
  | some t =>
    have still : ∀ rows : List Row, rows.foldlM (fun c row =>
        if c.armed name .update then fire name .update row c else .ok c) c = .ok c := by
      intro rows
      induction rows with
      | nil => rfl
      | cons row rest ih =>
        rw [List.foldlM_cons, if_neg (by simp [unarmed])]
        exact ih
    simp only [found, still] at run
    change (match c.table? name with
      | none => _
      | some t => _) >>= _ = _ at run
    simp only [found] at run
    split at run
    · cases run
    · obtain ⟨rfl, kept⟩ := enforce_ok.mp run
      exact ⟨t, rfl, rfl, kept⟩

end Insert

end Lib.Sql
