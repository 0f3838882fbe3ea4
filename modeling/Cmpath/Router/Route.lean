import Cmpath.Memory.Context
import Cmpath.Memory.Resolve

/-!
# Routes

What the two routers over `TaskMemory` share (`src/cmpath/router.py`, `src/cmpath/codex_memory.py`):
the routes, the counted envelope of a prompt, and the package of a prompt without memory.
-/

namespace Cmpath
open Lib Lib.Txn

namespace Router
open TaskMemory (check raising json)

/-- `MemoryRoute` (`router.py:49-58`). -/
inductive MemoryRoute where
  | none
  | pinned
  | task
  | lineage
  | deep
  deriving DecidableEq, Repr

def MemoryRoute.value : MemoryRoute → Text
  | .none => Text.lit "none"
  | .pinned => Text.lit "pinned"
  | .task => Text.lit "task"
  | .lineage => Text.lit "lineage"
  | .deep => Text.lit "deep"

/-- `scope_map`; the other routes have no scope. -/
def MemoryRoute.scope : MemoryRoute → Text
  | .deep => Text.lit "all"
  | route => route.value

/-- The text of a status. -/
def statusText : ResolutionStatus → String
  | .resolved => "resolved"
  | .ambiguous => "ambiguous"
  | .notFound => "not_found"

/-- `_resolution_payload` (`codex_memory.py:106-114`). -/
def resolutionPayload : Option TaskMemory.Resolution → Json
  | none => .null
  | some r =>
      .obj [(Text.lit "status", .str (Text.lit (statusText r.status))),
        (Text.lit "task_id", r.taskId.elim .null .int),
        (Text.lit "candidates", .arr (r.candidates.map .int)),
        (Text.lit "reason", .str (Text.lit r.reason))]

/-- `memory.task(task_id)`: an identifier that is none of SQLite's integers cannot be bound. -/
def boundTask (taskId : Int) : Query TaskRow := fun db => do
  check (1 ≤ taskId) .value "task_id must be a positive integer"
  check (taskId < 2 ^ 63) .overflow "Python int too large to convert to SQLite INTEGER"
  TaskMemory.findTask taskId db

/-- `try: memory.task(task_id)`, `except KeyError`. -/
def knownTask (taskId : Int) : Query (Option TaskRow) := fun db =>
  match boundTask taskId db with
  | .ok row => .ok (some row)
  | .error (.raised .key _) => .ok none
  | .error e => .error e

/-- `memory.message(message_id)`, except `KeyError`. -/
def knownMessage (messageId : Int) : Query (Option MessageRow) := fun db =>
  match TaskMemory.message messageId db with
  | .ok row => .ok (some row)
  | .error (.raised .key _) => .ok none
  | .error e => .error e

/-- The identifiers a router reads from a text are those `TaskMemory.resolve` reads. -/
def explicitTaskIds (host : Host) (text : Text) : Except Failure (List Int) :=
  TaskMemory.explicitTaskIds host text

/-- `Resolution` of one task. -/
def resolvedTask (taskId : Int) (reason : String) : TaskMemory.Resolution where
  status := .resolved
  taskId := some taskId
  candidates := [taskId]
  reason := reason

def ambiguousTasks (candidates : List Int) (reason : String) : TaskMemory.Resolution where
  status := .ambiguous
  candidates := TaskMemory.fromKeys candidates
  reason := reason

def noTask (reason : String) : TaskMemory.Resolution where
  status := .notFound
  reason := reason

/-! ## Counted prompts -/

/-- The prompt of a routed call, its counter and its limits. -/
structure Prompt where
  guard : Text
  query : Text
  system : Text
  budget : Int
  reserve : Int
  counter : Option (List Message → Except Failure Int)

/-- `allowance`. -/
def Prompt.allowance (p : Prompt) : Int := p.budget - p.reserve

/-- `counting`. -/
def Prompt.counting (p : Prompt) : Text :=
  if p.counter.isSome then Text.lit "custom" else Text.lit "estimated"

/-- `_base_messages` (`router.py:669-677`), `_messages` (`codex_memory.py:610-618`). -/
def Prompt.messages (p : Prompt) (payload : Json) : Except Failure (List Message) := do
  let envelope ← json (.obj [(Text.lit "memory_context", payload)])
  .ok [⟨Text.lit "system", (p.system ++ Text.lit "\n\n" ++ p.guard).strip⟩,
    ⟨Text.lit "user", envelope⟩, ⟨Text.lit "user", p.query⟩]

/-- `_count` (`router.py:653-667`, `codex_memory.py:602-608`): a counter is a function of the
    messages, so its second answer is its first. -/
def Prompt.count (p : Prompt) (payload : Json) : Except Failure Int := do
  let ms ← p.messages payload
  let n ← match p.counter with
    | some counter => counter ms
    | none => .ok (estimated ms)
  check (0 ≤ n) .value "counter must return a deterministic nonnegative integer"
  .ok n

/-- The payload fits into the allowance. -/
def Prompt.fits (p : Prompt) (payload : Json) : Except Failure Bool := do
  let n ← p.count payload
  .ok (decide (n ≤ p.allowance))

/-- `RoutedContext` (`router.py:224-246`), `CodexRoutedContext` (`codex_memory.py:182-196`). -/
structure RoutedContext where
  route : MemoryRoute
  taskId : Option Int
  messagesJson : Text
  usedUnits : Int
  inputAllowance : Int
  counting : Text
  citations : List Text := []
  omittedCandidates : Int := 0
  resolution : Option TaskMemory.Resolution := none
  reason : String := ""
  package : Option TaskMemory.ContextPackage := none

/-- What a package without memory is made from. -/
structure Verdict where
  route : MemoryRoute
  taskId : Option Int
  resolution : Option TaskMemory.Resolution
  reason : String

/-- `status` of a decision. -/
def Verdict.status (v : Verdict) : ResolutionStatus :=
  match v.resolution with
  | some r => r.status
  | none => if v.taskId.isSome then .resolved else .notFound

/-- The payload of a package without memory. -/
def emptyPayload (v : Verdict) : Json :=
  .obj [(Text.lit "memory_route", .str v.route.value),
    (Text.lit "status", .str (Text.lit (statusText v.status))),
    (Text.lit "resolution", resolutionPayload v.resolution),
    (Text.lit "evidence", .arr []), (Text.lit "citations", .arr [])]

/-- `_empty_context` (`router.py:690-728`), `_empty` (`codex_memory.py:620-654`); `exceeds` is what
    the router says of a prompt that is too large as it is. -/
def emptyContext (p : Prompt) (exceeds : Int → String) (v : Verdict) : Except Failure RoutedContext := do
  let ms ← p.messages (emptyPayload v)
  let used ← p.count (emptyPayload v)
  check (used ≤ p.allowance) .budget (exceeds used)
  let text ← json (TaskMemory.messagesJson ms)
  .ok
    { route := v.route, taskId := v.taskId, messagesJson := text, usedUnits := used
      inputAllowance := p.allowance, counting := p.counting, resolution := v.resolution
      reason := v.reason }

/-- `memory.context(...)` of a resolved route (`router.py:957-985`, `codex_memory.py:830-855`). -/
def packedContext (host : Host) (p : Prompt) (v : Verdict) (taskId retrievalLimit recent : Int) :
    Query RoutedContext := fun db => do
  let package ← TaskMemory.context host taskId
    { query := p.query, budget := p.budget, reserve := p.reserve, system := p.system
      counter := p.counter, scope := v.route.scope, retrievalLimit := retrievalLimit
      recent := recent } db
  .ok
    { route := v.route, taskId := some taskId, messagesJson := package.messagesJson
      usedUnits := package.usedUnits, inputAllowance := package.inputAllowance
      counting := package.counting, citations := package.citations
      omittedCandidates := package.omittedCandidates, resolution := v.resolution
      reason := v.reason, package := some package }

/-! ## Pins -/

/-- The newest `recent` entries of a transcript: `list(transcript[-recent:]) if recent else []`. -/
def newest {α : Type} (recent : Int) (l : List α) : List α := l.drop (l.length - recent.toNat)

/-- `transcript` (`memory.py:385-388`), the rows. -/
def transcript (db : Db) (taskId : Int) : List MessageRow :=
  (db.messages.filter (·.taskId == taskId)).mergeSort fun a b => a.id ≤ b.id

/-- The evidence of a pin belongs to its task (`router.py:411-418`, `codex_memory.py:352-356`). -/
def checkPinned (taskId : Int) : List Int → Query Unit
  | [], _ => .ok ()
  | evidenceId :: rest, db => do
      check (1 ≤ evidenceId) .value "evidence_id must be a positive integer"
      let evidence ← TaskMemory.message evidenceId db
      check (evidence.taskId == taskId) .value "Pinned evidence must belong to the pinned task"
      checkPinned taskId rest db

end Router

end Cmpath
