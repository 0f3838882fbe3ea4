import Cmpath.Lib.Json
import Cmpath.Lib.Txn

/-!
# The database

The tables of `native/engine/base.sql` (shared with `src/cmpath/memory.py`) and
`native/engine/journal.sql`, one list for each table, in rowid order: a new row goes to the end.
A column that only `json.Marshal` or `json.dumps` writes holds the tree its text decodes to; a
column whose exact bytes a caller spells (`payload_json`, `response_json`) holds the text.
-/

namespace Cmpath
open Lib

/-- A point in time in UTC, as a `time.Time` shows it. -/
structure Instant where
  year : Int
  month : Nat
  day : Nat
  hour : Nat
  minute : Nat
  second : Nat
  nano : Nat
  deriving DecidableEq, Repr

namespace Instant

/-- The fields from the year down. -/
def fields (t : Instant) : List Int :=
  [t.year, t.month, t.day, t.hour, t.minute, t.second, t.nano]

/-- `time.Time.Before`. -/
def before (a b : Instant) : Bool := decide (a.fields < b.fields)

/-- The fraction of a second without its trailing zeros, nothing when it is zero. -/
def fraction (nano : Nat) : Text :=
  if nano = 0 then []
  else .char '.' :: ((Text.padded 9 nano).reverse.dropWhile (· == .char '0')).reverse

/-- `Format(time.RFC3339Nano)`. -/
def text (t : Instant) : Text :=
  (if t.year < 0 then [.char '-'] else []) ++ Text.padded 4 t.year.natAbs ++
    .char '-' :: Text.padded 2 t.month ++ .char '-' :: Text.padded 2 t.day ++
    .char 'T' :: Text.padded 2 t.hour ++ .char ':' :: Text.padded 2 t.minute ++
    .char ':' :: Text.padded 2 t.second ++ fraction t.nano ++ [.char 'Z']

end Instant

/-- A clock reading as `now()` formats it (`engine.go:210`): its text reads back, which RFC3339
    grants for the years 0 to 9999. -/
structure Stamp extends Instant where
  year_range : 0 ≤ year ∧ year < 10000 := by decide
  deriving DecidableEq

namespace Stamp

/-- The text of a clock reading. -/
abbrev text (t : Stamp) : Text := t.toInstant.text

/-- The start of the epoch. -/
def epoch : Stamp := { year := 1970, month := 1, day := 1, hour := 0, minute := 0, second := 0,
                       nano := 0 }

end Stamp

instance : Inhabited Stamp := ⟨.epoch⟩

/-! ## Enumerated columns -/

/-- `tasks.status`. -/
inductive TaskStatus where
  | opened
  | archived
  deriving DecidableEq, Repr

def TaskStatus.text : TaskStatus → Text
  | .opened => Text.lit "open"
  | .archived => Text.lit "archived"

/-- `messages.role`. -/
inductive Role where
  | user
  | assistant
  | tool
  | document
  deriving DecidableEq, Repr

def Role.text : Role → Text
  | .user => Text.lit "user"
  | .assistant => Text.lit "assistant"
  | .tool => Text.lit "tool"
  | .document => Text.lit "document"

/-- `cmp_turns.status`. -/
inductive TurnStatus where
  | pending
  | committed
  | aborted
  deriving DecidableEq, Repr

def TurnStatus.text : TurnStatus → Text
  | .pending => Text.lit "pending"
  | .committed => Text.lit "committed"
  | .aborted => Text.lit "aborted"

/-- `cmp_tool_calls.status`. -/
inductive ToolStatus where
  | started
  | completed
  deriving DecidableEq, Repr

def ToolStatus.text : ToolStatus → Text
  | .started => Text.lit "started"
  | .completed => Text.lit "completed"

/-- `cmp_turn_provenance.kind`. -/
inductive EdgeKind where
  | supports
  | contradicts
  deriving DecidableEq, Repr

def EdgeKind.text : EdgeKind → Text
  | .supports => Text.lit "supports"
  | .contradicts => Text.lit "contradicts"

/-- `events.kind`: what the engine and `TaskMemory` record. -/
inductive EventKind where
  | harnessBegin
  | harnessCommit
  | create
  | snapshot
  | resume
  | archive
  | delete
  | append
  | fact
  deriving DecidableEq, Repr

/-! ## Rows of `base.sql` -/

/-- A row of `tasks`. -/
structure TaskRow where
  id : Int
  title : Text
  status : TaskStatus
  snapshot : Json
  revision : Int
  createdAt : Stamp

/-- A row of `dependencies`. -/
structure DependencyRow where
  child : Int
  parent : Int
  deriving DecidableEq

/-- A row of `aliases`. -/
structure AliasRow where
  taskId : Int
  aliasText : Text
  deriving DecidableEq

/-- A row of `messages`. -/
structure MessageRow where
  id : Int
  taskId : Int
  role : Role
  content : Text
  source : Json
  createdAt : Stamp

/-- A row of `facts`. -/
structure FactRow where
  id : Int
  taskId : Int
  key : Text
  revision : Int
  value : Json
  evidenceId : Int
  retracted : Bool
  createdAt : Stamp

/-- The one row of `runtime_state`. -/
structure RuntimeState where
  activeTask : Option Int
  version : Int
  deriving DecidableEq

/-- A row of `events`. -/
structure EventRow where
  id : Int
  kind : EventKind
  taskId : Option Int
  createdAt : Stamp

/-- `sqlite_sequence`: the largest identifier each AUTOINCREMENT table ever used. -/
structure Sequence where
  tasks : Int := 0
  messages : Int := 0
  facts : Int := 0
  events : Int := 0
  deriving DecidableEq

/-- What the triggers `messages_ai` and `messages_ad` tell the full-text index. -/
inductive IndexCommand where
  | insert (rowid : Int) (content : Text)
  | delete (rowid : Int) (content : Text)
  deriving DecidableEq

/-! ## Rows of `journal.sql` -/

/-- A row of `cmp_turns`. -/
structure TurnRow where
  requestId : Text
  taskId : Int
  fingerprint : Text
  requestJson : Json
  status : TurnStatus
  generation : Int
  taskRevision : Int
  packageJson : Json
  replyJson : Option Json
  commitHash : Option Text
  createdAt : Stamp
  updatedAt : Stamp

/-- A row of `cmp_tool_calls`. -/
structure ToolRow where
  requestId : Text
  callId : Text
  name : Text
  argsJson : Json
  fingerprint : Text
  status : ToolStatus
  resultJson : Option Json
  evidenceId : Option Int

/-- A row of `cmp_model_calls`. -/
structure ModelCallRow where
  requestId : Text
  callId : Text
  payloadJson : Text
  units : Int
  counting : Text
  deriving DecidableEq

/-- A row of `cmp_model_responses`. -/
structure ModelResponseRow where
  requestId : Text
  callId : Text
  responseJson : Text
  createdAt : Stamp
  deriving DecidableEq

/-- A row of `cmp_retired_turns`, the tombstones. -/
structure RetiredRow where
  requestId : Text
  fingerprint : Text
  status : TurnStatus
  retiredAt : Stamp
  deriving DecidableEq

/-- A row of `cmp_scope_epochs`; task zero is the clock of the whole database. -/
structure EpochRow where
  taskId : Int
  epoch : Int
  deriving DecidableEq

/-- A row of `cmp_turn_basis`. -/
structure BasisRow where
  requestId : Text
  taskId : Int
  epoch : Int
  deriving DecidableEq

/-- A row of `cmp_turn_provenance`. -/
structure ProvenanceRow where
  requestId : Text
  evidenceId : Int
  kind : EdgeKind
  createdAt : Stamp
  deriving DecidableEq

/-- A row of `cmp_action_leases`. -/
structure LeaseRow where
  token : Text
  requestId : Text
  generation : Int
  callId : Text
  argsHash : Text
  expiresAt : Int
  createdAt : Stamp
  deriving DecidableEq

/-- One firing of an epoch trigger (`journal.sql:92-191`): the task of the old row and of the new
    row; an insertion has no old row, a deletion no new one. -/
structure Touch where
  old : Option Int
  new : Option Int
  deriving DecidableEq

/-- The row belongs, or belonged, to the task. -/
def Touch.touches (t : Touch) (task : Int) : Bool := t.old == some task || t.new == some task

/-- The tables of `base.sql`. -/
structure Tables where
  tasks : List TaskRow := []
  dependencies : List DependencyRow := []
  aliases : List AliasRow := []
  messages : List MessageRow := []
  evidenceIndex : List IndexCommand := []
  facts : List FactRow := []
  runtimeState : RuntimeState := ⟨none, 0⟩
  events : List EventRow := []
  sequence : Sequence := {}

/-- The tables of `journal.sql` that only the engine writes. -/
structure Journal where
  turns : List TurnRow := []
  toolCalls : List ToolRow := []
  modelCalls : List ModelCallRow := []
  modelResponses : List ModelResponseRow := []
  retiredTurns : List RetiredRow := []
  turnBasis : List BasisRow := []
  turnProvenance : List ProvenanceRow := []
  actionLeases : List LeaseRow := []

/-- A database the engine has opened. `writes` is no table and no statement reads it: it lists
    the row writes the epoch triggers saw, newest first. -/
structure Db extends Tables, Journal where
  scopeEpochs : List EpochRow := [⟨0, 0⟩]
  writes : List Touch := []

/-- The database `Open` creates (`engine.go:96-162`). -/
def Db.empty : Db := {}

/-! ## Failures -/

/-- The codes of the engine's errors. -/
inductive Code where
  | invalid
  | notFound
  | retired
  | state
  | fenced
  | conflict
  | busy
  | staleContext
  | provenanceRequired
  | indeterminateTool
  | budget
  | integrity
  | stalePlan
  | inProgress
  deriving DecidableEq, Repr

/-- The exceptions `TaskMemory` raises. -/
inductive Exc where
  | value
  | key
  | conflict
  | budget
  | overflow
  | type
  | recursion
  deriving DecidableEq, Repr

/-- Why an operation failed: a coded engine error (`engine.go:49-55`), a statement SQLite refused
    (code `storage_error`, a Python `sqlite3.Error`), or a Python exception. -/
inductive Failure where
  | problem (code : Code) (message : String)
  | constraint (message : String)
  | raised (exc : Exc) (message : String)
  deriving DecidableEq, Repr

/-- A computation over the database, one transaction of a writer. -/
abbrev Tx (α : Type) : Type := Txn Db Failure α

/-- A read of the database. -/
abbrev Query (α : Type) : Type := Db → Except Failure α

/-! ## Rows as `Query` returns them -/

/-- A column value: the storage classes the journal uses. -/
inductive Value where
  | null
  | integer (n : Int)
  | text (t : Text)
  deriving DecidableEq

/-- The JSON value of a column in a row. -/
def Value.json : Value → Json
  | .null => .null
  | .integer n => .int n
  | .text t => .str t

/-- `sqlite.Row`, a map from column names to values, listed in the order of its keys. -/
abbrev Row := List (Text × Value)

/-- A row as `json.Marshal` writes the map. -/
def Row.json (row : Row) : Json := .obj (row.map fun f => (f.1, f.2.json))

/-- The column of an optional value. -/
def Value.ofOption {α : Type} (f : α → Value) : Option α → Value
  | some a => f a
  | none => .null

def TurnRow.row (t : TurnRow) : Row :=
  [(Text.lit "commit_hash", .ofOption .text t.commitHash),
    (Text.lit "created_at", .text t.createdAt.text),
    (Text.lit "fingerprint", .text t.fingerprint),
    (Text.lit "generation", .integer t.generation),
    (Text.lit "package_json", .text t.packageJson.marshal),
    (Text.lit "reply_json", .ofOption (fun j => .text j.marshal) t.replyJson),
    (Text.lit "request_id", .text t.requestId),
    (Text.lit "request_json", .text t.requestJson.marshal),
    (Text.lit "status", .text t.status.text),
    (Text.lit "task_id", .integer t.taskId),
    (Text.lit "task_revision", .integer t.taskRevision),
    (Text.lit "updated_at", .text t.updatedAt.text)]

def ToolRow.row (t : ToolRow) : Row :=
  [(Text.lit "args_json", .text t.argsJson.marshal),
    (Text.lit "call_id", .text t.callId),
    (Text.lit "evidence_id", .ofOption .integer t.evidenceId),
    (Text.lit "fingerprint", .text t.fingerprint),
    (Text.lit "name", .text t.name),
    (Text.lit "request_id", .text t.requestId),
    (Text.lit "result_json", .ofOption (fun j => .text j.marshal) t.resultJson),
    (Text.lit "status", .text t.status.text)]

def ModelCallRow.row (m : ModelCallRow) : Row :=
  [(Text.lit "call_id", .text m.callId),
    (Text.lit "counting", .text m.counting),
    (Text.lit "payload_json", .text m.payloadJson),
    (Text.lit "request_id", .text m.requestId),
    (Text.lit "units", .integer m.units)]

def ModelResponseRow.row (m : ModelResponseRow) : Row :=
  [(Text.lit "call_id", .text m.callId),
    (Text.lit "created_at", .text m.createdAt.text),
    (Text.lit "request_id", .text m.requestId),
    (Text.lit "response_json", .text m.responseJson)]

def RetiredRow.row (t : RetiredRow) : Row :=
  [(Text.lit "fingerprint", .text t.fingerprint),
    (Text.lit "request_id", .text t.requestId),
    (Text.lit "retired_at", .text t.retiredAt.text),
    (Text.lit "status", .text t.status.text)]

def BasisRow.row (b : BasisRow) : Row :=
  [(Text.lit "epoch", .integer b.epoch),
    (Text.lit "request_id", .text b.requestId),
    (Text.lit "task_id", .integer b.taskId)]

def ProvenanceRow.row (p : ProvenanceRow) : Row :=
  [(Text.lit "created_at", .text p.createdAt.text),
    (Text.lit "evidence_id", .integer p.evidenceId),
    (Text.lit "kind", .text p.kind.text),
    (Text.lit "request_id", .text p.requestId)]

def LeaseRow.row (l : LeaseRow) : Row :=
  [(Text.lit "args_hash", .text l.argsHash),
    (Text.lit "call_id", .text l.callId),
    (Text.lit "created_at", .text l.createdAt.text),
    (Text.lit "expires_at", .integer l.expiresAt),
    (Text.lit "generation", .integer l.generation),
    (Text.lit "request_id", .text l.requestId),
    (Text.lit "token", .text l.token)]

end Cmpath
