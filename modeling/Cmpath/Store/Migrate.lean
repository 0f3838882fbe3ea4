import Cmpath.Lib.Connection

/-!
# Opening a database

`Open` (`native/engine/engine.go:96-162`) checks the base schema, gives `cmp_turns.request_id` its
NOT NULL constraint in a database written before it (`native/engine/migrate.go`), and runs
`journal.sql`. A declaration holds what a statement here can run into: columns, keys, checks and
references, without the actions of a reference.
-/

namespace Cmpath
open Lib Lib.Sql

/-- Why `Open` fails: a statement, or a coded engine error. -/
inductive OpenError where
  | sql (e : SqlError)
  | problem (code message : String)
  deriving DecidableEq

/-- A statement of `Open`, whose failure is returned as it is. -/
def sql {α : Type} (p : Program SqlError α) : Program OpenError α := p.mapError .sql

/-! ## base.sql -/

def textColumn (name : String) : Column := ⟨name, "TEXT", true, false⟩

def optionalText (name : String) : Column := ⟨name, "TEXT", false, false⟩

def integerColumn (name : String) : Column := ⟨name, "INTEGER", true, false⟩

def rowidColumn (name : String) : Column := ⟨name, "INTEGER", false, true⟩

def texts (values : List String) : List Value := values.map fun v => .text (Text.lit v)

def toTask (column : String) : ForeignKey := ⟨[column], "tasks", ["id"]⟩

/-- A trigger of `messages` on the full-text index. -/
def evidenceTrigger (name : String) (event : Event) (program : String) : Trigger :=
  ⟨name, "messages", event, program, ["evidence_index"]⟩

/-- `native/engine/base.sql`. The virtual table stands without its shadow tables. -/
def baseSchema : List Command := [
  .begin,
  .stmt (.createTable "tasks" {
    columns := [rowidColumn "id", textColumn "title", textColumn "status", textColumn "snapshot",
      integerColumn "revision", textColumn "created_at"]
    keys := [["id"]]
    checks := [.among "status" (texts ["open", "archived"])] } true),
  .stmt (.createTable "dependencies" {
    columns := [integerColumn "child", integerColumn "parent"]
    keys := [["child", "parent"]]
    checks := [.apart "child" "parent"]
    foreignKeys := [toTask "child", toTask "parent"] } true),
  .stmt (.createTable "aliases" {
    columns := [integerColumn "task_id", textColumn "alias"]
    keys := [["task_id", "alias"]]
    foreignKeys := [toTask "task_id"] } true),
  .stmt (.createIndex ⟨"aliases_lookup", "aliases", ["alias"], false, none⟩ true),
  .stmt (.createTable "messages" {
    columns := [rowidColumn "id", integerColumn "task_id", textColumn "role", textColumn "content",
      textColumn "source", textColumn "created_at"]
    keys := [["id"]]
    checks := [.among "role" (texts ["user", "assistant", "tool", "document"])]
    foreignKeys := [toTask "task_id"] } true),
  .stmt (.createIndex ⟨"messages_task", "messages", ["task_id", "id"], false, none⟩ true),
  .stmt (.createTable "evidence_index" { columns := [optionalText "content"], keys := [] } true),
  .stmt (.createTrigger (evidenceTrigger "messages_ai" .insert
    "INSERT INTO evidence_index(rowid,content) VALUES(new.id,new.content);") true),
  .stmt (.createTrigger (evidenceTrigger "messages_ad" .delete
    "INSERT INTO evidence_index(evidence_index,rowid,content) VALUES('delete',old.id,old.content);")
    true),
  .stmt (.createTable "facts" {
    columns := [rowidColumn "id", integerColumn "task_id", textColumn "key", integerColumn "revision",
      textColumn "value", integerColumn "evidence_id", integerColumn "retracted",
      textColumn "created_at"]
    keys := [["id"], ["task_id", "key", "revision"]]
    checks := [.among "retracted" [.integer 0, .integer 1]]
    foreignKeys := [toTask "task_id", ⟨["evidence_id"], "messages", ["id"]⟩] } true),
  .stmt (.createIndex ⟨"facts_current", "facts", ["task_id", "key", "revision"], false, none⟩ true),
  .stmt (.createTable "runtime_state" {
    columns := [rowidColumn "singleton", ⟨"active_task", "INTEGER", false, false⟩,
      integerColumn "version"]
    keys := [["singleton"]]
    checks := [.among "singleton" [.integer 1]]
    foreignKeys := [toTask "active_task"] } true),
  .stmt (.insert true "runtime_state" ["singleton", "active_task", "version"]
    [.const (.integer 1), .const .null, .const (.integer 0)] none),
  .stmt (.createTable "events" {
    columns := [rowidColumn "id", textColumn "kind", ⟨"task_id", "INTEGER", false, false⟩,
      textColumn "created_at"]
    keys := [["id"]] } true),
  .stmt (.setUserVersion 1),
  .commit]

/-! ## journal.sql -/

/-- `cmp_turns`; the declarations before and after the constraint differ in one flag. -/
def turnsDecl (notNull : Bool) : Decl where
  columns := [⟨"request_id", "TEXT", notNull, false⟩, integerColumn "task_id",
    textColumn "fingerprint", textColumn "request_json", textColumn "status",
    integerColumn "generation", integerColumn "task_revision", textColumn "package_json",
    optionalText "reply_json", optionalText "commit_hash", textColumn "created_at",
    textColumn "updated_at"]
  keys := [["request_id"]]
  checks := [.among "status" (texts ["pending", "committed", "aborted"])]
  foreignKeys := [toTask "task_id"]

def harnessMetaDecl : Decl where
  columns := [rowidColumn "singleton", integerColumn "version"]
  keys := [["singleton"]]
  checks := [.among "singleton" [.integer 1]]

def scopeEpochsDecl : Decl where
  columns := [rowidColumn "task_id", integerColumn "epoch"]
  keys := [["task_id"]]
  checks := [.counter "epoch"]

def toTurn : ForeignKey := ⟨["request_id"], "cmp_turns", ["request_id"]⟩

def retiredTurnsDecl : Decl where
  columns := [optionalText "request_id", textColumn "fingerprint", textColumn "status",
    textColumn "retired_at"]
  keys := [["request_id"]]
  checks := [.among "status" (texts ["committed", "aborted"])]

def retiredProgram : String := "SELECT RAISE(ABORT,'retired request ID cannot be reused');"

/-- `cmp_turns_retired_guard`. -/
def retiredGuard : Trigger where
  name := "cmp_turns_retired_guard"
  table := "cmp_turns"
  event := .insert
  program := retiredProgram
  reads := ["cmp_retired_turns"]

/-- `cmp_turns_retired_update_guard`. -/
def retiredUpdateGuard : Trigger where
  name := "cmp_turns_retired_update_guard"
  table := "cmp_turns"
  event := .update
  program := retiredProgram
  reads := ["cmp_retired_turns"]

/-- `cmp_one_pending_turn`. -/
def onePendingIndex : Index where
  name := "cmp_one_pending_turn"
  table := "cmp_turns"
  columns := ["task_id"]
  unique := true
  filter := some ("status", .text (Text.lit "pending"))

/-- A trigger that moves the clocks (`journal.sql:92-191`); `column` names the task. -/
def epochTrigger (table column : String) (event : Event) : Trigger :=
  let one side := "INSERT INTO cmp_scope_epochs(task_id,epoch) VALUES(" ++ side ++ "." ++ column ++
    ",1) ON CONFLICT(task_id) DO UPDATE SET epoch=epoch+1;"
  let all := " UPDATE cmp_scope_epochs SET epoch=epoch+1 WHERE task_id=0;"
  match event with
  | .insert =>
      { name := "cmp_epoch_" ++ table ++ "_insert", table := table, event := .insert
        program := one "NEW" ++ all, reads := ["cmp_scope_epochs"] }
  | .update =>
      { name := "cmp_epoch_" ++ table ++ "_update", table := table, event := .update
        program := one "OLD" ++ " INSERT INTO cmp_scope_epochs(task_id,epoch) SELECT NEW." ++ column ++
          ",1 WHERE NEW." ++ column ++ "!=OLD." ++ column ++
          " ON CONFLICT(task_id) DO UPDATE SET epoch=epoch+1;" ++ all
        reads := ["cmp_scope_epochs"] }
  | .delete =>
      { name := "cmp_epoch_" ++ table ++ "_delete", table := table, event := .delete
        program := one "OLD" ++ all, reads := ["cmp_scope_epochs"] }

/-- The tables with clocks and their columns. -/
def clocked : List (String × String) :=
  [("tasks", "id"), ("messages", "task_id"), ("facts", "task_id"), ("dependencies", "child"),
    ("aliases", "task_id")]

def epochTriggers : List Trigger :=
  clocked.flatMap fun (table, column) => [.insert, .update, .delete].map (epochTrigger table column)

/-- The statements of `native/engine/journal.sql` between its BEGIN and its COMMIT. -/
def journalStatements : List Stmt := [
  .createTable "cmp_harness_meta" harnessMetaDecl true,
  .insert true "cmp_harness_meta" ["singleton", "version"]
    [.const (.integer 1), .const (.integer 1)] none,
  .createTable "cmp_turns" (turnsDecl true) true,
  .createIndex onePendingIndex true,
  .createTable "cmp_tool_calls" {
    columns := [textColumn "request_id", textColumn "call_id", textColumn "name",
      textColumn "args_json", textColumn "fingerprint", textColumn "status",
      optionalText "result_json", ⟨"evidence_id", "INTEGER", false, false⟩]
    keys := [["request_id", "call_id"]]
    checks := [.among "status" (texts ["started", "completed"])]
    foreignKeys := [toTurn, ⟨["evidence_id"], "messages", ["id"]⟩] } true,
  .createTable "cmp_model_calls" {
    columns := [textColumn "request_id", textColumn "call_id", textColumn "payload_json",
      integerColumn "units", textColumn "counting"]
    keys := [["request_id", "call_id"]]
    foreignKeys := [toTurn] } true,
  .createTable "cmp_model_responses" {
    columns := [textColumn "request_id", textColumn "call_id", textColumn "response_json",
      textColumn "created_at"]
    keys := [["request_id", "call_id"]]
    foreignKeys := [⟨["request_id", "call_id"], "cmp_model_calls", ["request_id", "call_id"]⟩] } true,
  .createTable "cmp_retired_turns" retiredTurnsDecl true,
  .createTrigger retiredGuard true,
  .createTrigger retiredUpdateGuard true,
  .createTable "cmp_scope_epochs" scopeEpochsDecl true,
  .insert true "cmp_scope_epochs" ["task_id", "epoch"] [.const (.integer 0), .const (.integer 0)] none,
  .insert true "cmp_scope_epochs" ["task_id", "epoch"] [.column "id", .const (.integer 0)]
    (some "tasks"),
  .createTable "cmp_turn_basis" {
    columns := [textColumn "request_id", integerColumn "task_id", integerColumn "epoch"]
    keys := [["request_id", "task_id"]]
    checks := [.counter "epoch"]
    foreignKeys := [toTurn] } true,
  .createTable "cmp_turn_provenance" {
    columns := [textColumn "request_id", integerColumn "evidence_id", textColumn "kind",
      textColumn "created_at"]
    keys := [["request_id", "evidence_id", "kind"]]
    checks := [.among "kind" (texts ["supports", "contradicts"])]
    foreignKeys := [toTurn] } true,
  .createTable "cmp_action_leases" {
    columns := [optionalText "token", textColumn "request_id", integerColumn "generation",
      textColumn "call_id", textColumn "args_hash", integerColumn "expires_at",
      textColumn "created_at"]
    keys := [["token"], ["request_id", "generation", "call_id", "token"]]
    foreignKeys := [toTurn] } true] ++
  epochTriggers.map (fun t => .createTrigger t true) ++
  [.update "cmp_harness_meta" "version" (.integer 4) "singleton" (.integer 1)]

/-- `native/engine/journal.sql`. -/
def journalSchema : List Command := .begin :: journalStatements.map .stmt ++ [.commit]

/-! ## migrate.go -/

def cmpTurnsRebuildTable : String := "cmp_turns_rebuild"

def cmpTurnsColumns : List String :=
  ["request_id", "task_id", "fingerprint", "request_json", "status", "generation", "task_revision",
    "package_json", "reply_json", "commit_hash", "created_at", "updated_at"]

section Migrate

variable (world : World)

/-- `countRows` of `SELECT count(*) AS n FROM name`, of the rows that pass. -/
def countRows (name : String) (pass : Table → Row → Bool) : Program SqlError Nat :=
  query world fun c =>
    match c.table? name with
    | none => .error (.noSuchTable name)
    | some t => .ok (t.rows.countP (pass t))

/-- `turnRequestIDColumn` (`migrate.go:126-151`). -/
def turnRequestIDColumn : Program SqlError (List String × String × Bool) :=
  query world fun c =>
    let info := ((c.table? "cmp_turns").map fun t => t.decl.columns).getD []
    let own := info.filter (·.name == "request_id")
    .ok (info.map Column.name, (own.getLast?.map Column.kind).getD "",
      (own.getLast?.map Column.notNull).getD false)

/-- `turnRequestIDNullable` (`migrate.go:107-117`). -/
def turnRequestIDNullable : Program OpenError Bool := do
  let (columns, kind, notNull) ← sql (turnRequestIDColumn world)
  if kind != "TEXT" || notNull then pure false
  else if columns != cmpTurnsColumns then
    .fail (.problem "schema" ("cmp_turns has columns [" ++ " ".intercalate columns ++
      "], want the journal's [" ++ " ".intercalate cmpTurnsColumns ++
      "]; refusing to rebuild an unrecognised table"))
  else pure true

/-- The statements that make the copy (`migrate.go:172-178`). -/
def copyStatements : List Stmt := [
  .dropTable cmpTurnsRebuildTable true,
  .createTable cmpTurnsRebuildTable (turnsDecl true) false,
  .insert false cmpTurnsRebuildTable cmpTurnsColumns (cmpTurnsColumns.map .column)
    (some "cmp_turns")]

/-- The statements that put the copy in the place of the table (`migrate.go:190-194`). -/
def replaceStatements : List Stmt := [
  .dropTable "cmp_turns" false,
  .renameTable cmpTurnsRebuildTable "cmp_turns",
  .createIndex onePendingIndex false]

/-- The guards come back where there is something to guard (`migrate.go:203-214`). -/
def recreateGuards : Program OpenError Unit := do
  let guarded ← sql (query world fun c => .ok (c.hasTable "cmp_retired_turns"))
  if guarded then
    sql (script world [.stmt (.createTrigger retiredGuard false),
      .stmt (.createTrigger retiredUpdateGuard false)])
  else pure ()

/-- The referential check and the COMMIT (`migrate.go:215-224`). -/
def commitRebuild : Program OpenError Unit := do
  let violations ← sql (query world fun c => .ok c.violations.length)
  if violations != 0 then
    .fail (.problem "integrity" ("cmp_turns rebuild left " ++ toString violations ++
      " foreign key violation(s); nothing was changed"))
  else sql (exec world .commit)

/-- `rebuildTurnRequestID` between its BEGIN and its ROLLBACK (`migrate.go:166-224`). -/
def rebuildBody : Program OpenError Unit := do
  let before ← sql (countRows world "cmp_turns" fun _ _ => true)
  sql (script world (copyStatements.map .stmt))
  let copied ← sql (countRows world cmpTurnsRebuildTable fun _ _ => true)
  if copied != before then
    .fail (.problem "integrity" ("cmp_turns rebuild copied " ++ toString copied ++ " of " ++
      toString before ++ " row(s); nothing was changed"))
  else
    sql (script world (replaceStatements.map .stmt))
    recreateGuards world
    commitRebuild world

/-- `rebuildTurnRequestID` (`migrate.go:153-224`). -/
def rebuildTurnRequestID : Program OpenError Unit := do
  sql (exec world .begin)
  (rebuildBody world).orElse (.ignore (exec world .rollback))

/-- `migrateTurnRequestID` (`migrate.go:69-101`). -/
def migrateTurnRequestID : Program OpenError Unit := do
  let rebuild ← turnRequestIDNullable world
  if !rebuild then pure ()
  else
    let nulls ← sql (countRows world "cmp_turns" fun t row => t.decl.get row "request_id" == .null)
    if nulls != 0 then
      .fail (.problem "integrity" ("cmp_turns.request_id is NULL in " ++ toString nulls ++
        " row(s), which NOT NULL cannot admit and this engine will not delete silently; inspect them with SELECT rowid,typeof(request_id) FROM cmp_turns WHERE request_id IS NULL, retire or repair them explicitly, and reopen"))
    else
      sql (exec world (.foreignKeys false))
      (rebuildTurnRequestID world).orElse (.ignore (exec world (.foreignKeys true)))
      sql (exec world (.foreignKeys true))

end Migrate

/-! ## engine.go -/

/-- A name that `NOT LIKE 'sqlite_%'` leaves out. -/
def internalName (name : String) : Bool := name.length ≥ 7 && name.toLower.startsWith "sqlite"

/-- The columns the validating query of `Open` names (`engine.go:130`). -/
def baseColumns : List (String × String) :=
  [("tasks", "id"), ("messages", "id"), ("facts", "id"), ("dependencies", "child"),
    ("aliases", "alias"), ("runtime_state", "version"), ("events", "id")]

def selectColumns : List (String × String) → Catalog → Except SqlError Unit
  | [], _ => .ok ()
  | (name, column) :: rest, c =>
      match c.table? name with
      | none => .error (.noSuchTable name)
      | some t =>
          if t.decl.names.contains column then selectColumns rest c
          else .error (.noSuchTable column)

/-- The versions in `cmp_harness_meta WHERE singleton=1`. -/
def harnessVersions (c : Catalog) : Except SqlError (List Value) :=
  match c.table? "cmp_harness_meta" with
  | none => .error (.noSuchTable "cmp_harness_meta")
  | some t => .ok ((t.rows.filter fun row => t.decl.get row "singleton" == .integer 1).map fun row =>
      t.decl.get row "version")

section Open

variable (world : World)

/-- The base schema of a new database (`engine.go:124-128`). -/
def createBase (version : Int) : Program OpenError Unit :=
  if version == 0 then sql (script world baseSchema) else pure ()

/-- The version of the journal, where there is one (`engine.go:136-148`). -/
def checkHarness : Program OpenError Unit := do
  let known ← sql (query world fun c => .ok (c.hasTable "cmp_harness_meta" ||
    c.hasView "cmp_harness_meta" || c.hasIndex "cmp_harness_meta" || c.hasTrigger "cmp_harness_meta"))
  if known then
    let versions ← sql (query world harnessVersions)
    if versions.length == 1 &&
        versions.all [.integer 1, .integer 2, .integer 3, .integer 4].contains then pure ()
    else .fail (.problem "schema" "unsupported harness schema")
  else pure ()

/-- `Open` on a connection (`engine.go:107-161`). -/
def openEngine : Program OpenError Unit := do
  sql (exec world .setting)
  sql (script world [.foreignKeys true])
  let version ← sql (query world fun c => .ok c.userVersion)
  let tables ← sql (query world fun c => .ok (c.tables.filter fun t => !internalName t.name).length)
  if (version == 0 && tables > 0) || (version != 0 && version != 1) then
    .fail (.problem "schema" "unsupported database schema")
  else
    createBase world version
    sql (query world (selectColumns baseColumns))
    sql (query world (selectColumns [("evidence_index", "content")]))
    checkHarness world
    sql (script world [.setting, .setting])
    migrateTurnRequestID world
    sql (script world journalSchema)

/-- `Open` on a file: the answer, and what the file holds afterwards. A connection that fails is
    closed. -/
def openFile (file : Catalog) : Except OpenError Unit × Catalog :=
  ((openEngine world { file := file }).1, (openEngine world { file := file }).2.close)

end Open

end Cmpath
