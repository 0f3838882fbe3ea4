import Cmpath.Adapter.Backend
import Cmpath.Engine.Operation

/-!
# Tool intents through two adapters

`RoutedTurn.before_tool` (`src/cmpath/harness.py:711-728`) and the `before_tool` envelope of the
control plane (`src/cmpath/control_plane.py:741-779`): both record an intent with `StartTool` and
ask `ActionEligible` for a lease. The first reads the answer of `StartTool` before it asks.
-/

namespace Cmpath
open Lib Lib.Txn

/-- A `before_tool` request of the worker of a turn. -/
structure IntentRequest where
  requestId : Text
  generation : Int
  callId : Text
  name : Text
  arguments : Json
  ttlMs : Int := 5000

/-- `{"tool": …, "eligibility": …}`. -/
structure Intent where
  tool : ToolCall
  eligibility : Option ActionLease

/-! ## The two engine calls -/

/-- The arguments of `tool_start`. -/
def IntentRequest.startArguments (q : IntentRequest) : Json :=
  .obj [(Text.lit "request_id", .str q.requestId), (Text.lit "generation", .int q.generation),
    (Text.lit "call_id", .str q.callId), (Text.lit "name", .str q.name),
    (Text.lit "arguments", q.arguments)]

/-- `call("tool_start", …)`. -/
def toolStart (host : Host) (q : IntentRequest) : Db → Except HostError ToolCall × Db :=
  backendCall "tool_start" q.startArguments (int64 q.generation)
    (startTool host q.requestId q.generation q.callId q.name q.arguments)

/-- The arguments of `action_eligible`. -/
def IntentRequest.leaseArguments (q : IntentRequest) : Json :=
  .obj [(Text.lit "request_id", .str q.requestId), (Text.lit "generation", .int q.generation),
    (Text.lit "call_id", .str q.callId), (Text.lit "ttl_ms", .int q.ttlMs)]

/-- `call("action_eligible", …)`. -/
def toolEligible (host : Host) (clk : Clock) (q : IntentRequest) :
    Db → Except HostError ActionLease × Db :=
  backendCall "action_eligible" q.leaseArguments (int64 q.generation && int64 q.ttlMs)
    (actionEligible host clk q.requestId q.generation q.callId q.ttlMs)

/-- The lease of an intent: the last step of both adapters. -/
def grant (host : Host) (clk : Clock) (q : IntentRequest) (started : ToolCall) (db : Db) :
    Except HostError Intent × Db :=
  match toolEligible host clk q db with
  | (.error e, db') => (.error e, db')
  | (.ok lease, db') => (.ok ⟨started, some lease⟩, db')

/-- `RoutedTurn.before_tool` (`harness.py:711-728`). -/
def routedBeforeTool (host : Host) (clk : Clock) (q : IntentRequest) (db : Db) :
    Except HostError Intent × Db :=
  match toolStart host q db with
  | (.error e, db') => (.error e, db')
  | (.ok started, db') =>
      if started.status = .completed then (.ok ⟨started, none⟩, db')
      else if !started.created then (.error (.indeterminateTool q.callId), db')
      else grant host clk q started db'

/-! ## The control plane's checks -/

/-- `_required_string` (`control_plane.py:92-97`). -/
def requiredString (value : Option Json) (name : String) (limit : Nat) : Except HostError Text :=
  match value with
  | some (.str s) =>
      if s.strip.isEmpty then
        .error (.control "invalid" (Text.lit (name ++ " must be a nonempty string")))
      else if !s.valid then .error (.value "surrogates not allowed")
      else if limit < s.size then .error (.control "invalid" (Text.lit (name ++ " is too long")))
      else .ok s
  | _ => .error (.control "invalid" (Text.lit (name ++ " must be a nonempty string")))

/-- `_integer` (`control_plane.py:108-116`). -/
def integer (value : Json) (name : String) (minimum : Int) (maximum : Option Int) :
    Except HostError Int :=
  match value with
  | .int n =>
      if n < minimum then .error (.control "invalid" (Text.lit (name ++ " is below its minimum")))
      else if maximum.any (· < n) then
        .error (.control "invalid" (Text.lit (name ++ " is above its maximum")))
      else .ok n
  | _ => .error (.control "invalid" (Text.lit (name ++ " must be an integer")))

/-- The code points of a Python `str`. -/
def codePoints (t : Text) : List Nat :=
  t.map fun
    | .char c => c.toNat
    | .stray n => n

/-- `sorted(keys)[0]`. -/
def firstKey (keys : List Text) : Text :=
  (keys.mergeSort fun a b => decide (codePoints a ≤ codePoints b)).headD []

/-- `_known` (`control_plane.py:119-122`). -/
def known (fields : List (Text × Json)) (allowed : List String) : Except HostError Unit :=
  let extra := (fields.map Prod.fst).filter fun k => !(allowed.map Text.lit).contains k
  if extra.isEmpty then .ok ()
  else .error (.control "invalid" (Text.lit "unknown field: " ++ firstKey extra))

/-- `data[key] = value`. -/
def assign (key : String) (value : Json) (fields : List (Text × Json)) : List (Text × Json) :=
  fields.filter (·.1 != Text.lit key) ++ [(Text.lit key, value)]

/-- `data.get(key)`. -/
def field (fields : List (Text × Json)) (key : String) : Option Json :=
  (Json.obj fields).get? (Text.lit key)

/-- `ControlPlane._generation` (`control_plane.py:260-264`). -/
def workerOf (fields : List (Text × Json)) : Except HostError (Text × Int) := do
  let rid ← requiredString (field fields "request_id") "request_id" 128
  let gen ← integer ((field fields "generation").getD .null) "generation" 1 none
  .ok (rid, gen)

/-- The checks of `ControlPlane.start_tool` (`control_plane.py:367-379`). -/
def startToolFields (fields : List (Text × Json)) : Except HostError IntentRequest := do
  known fields ["request_id", "generation", "call_id", "name", "arguments"]
  let (rid, gen) ← workerOf fields
  let cid ← requiredString (field fields "call_id") "call_id" 128
  let name ← requiredString (field fields "name") "name" 4096
  match field fields "arguments" with
  | none => .error (.control "invalid" (Text.lit "arguments is required"))
  | some arguments =>
      .ok { requestId := rid, generation := gen, callId := cid, name := name, arguments := arguments }

/-- `ControlPlane.start_tool` (`control_plane.py:364-382`). -/
def controlStartTool (host : Host) (fields : List (Text × Json)) (db : Db) :
    Except HostError ToolCall × Db :=
  match startToolFields fields with
  | .error e => (.error e, db)
  | .ok q => toolStart host q db

/-- The checks of `ControlPlane.action_eligible` (`control_plane.py:388-396`). -/
def actionEligibleFields (fields : List (Text × Json)) : Except HostError IntentRequest := do
  known fields ["request_id", "generation", "call_id", "ttl_ms"]
  let (rid, gen) ← workerOf fields
  let cid ← requiredString (field fields "call_id") "call_id" 128
  let ttl ← integer ((field fields "ttl_ms").getD (.int 0)) "ttl_ms" 0 (some 600000)
  .ok { requestId := rid, generation := gen, callId := cid, name := [], arguments := .null
        ttlMs := ttl }

/-- `ControlPlane.action_eligible` (`control_plane.py:384-398`). -/
def controlActionEligible (host : Host) (clk : Clock) (fields : List (Text × Json)) (db : Db) :
    Except HostError ActionLease × Db :=
  match actionEligibleFields fields with
  | .error e => (.error e, db)
  | .ok q => toolEligible host clk q db

/-! ## The envelope -/

/-- `value == 1` of a decoded JSON value: `true` and `1.0` are equal to one as well. -/
def isOne (host : Host) : Json → Bool
  | .int n => n == 1
  | .bool b => b
  | .num spelling => host.floatRepr spelling == "1.0".toList
  | _ => false

/-- `s.lower().replace("-", "_")`, as far as the names of the operations can tell: no letter of
    them is the lower case of anything but its own capital. -/
def operationName (s : Text) : Text :=
  s.map fun
    | .char c => .char (if c == '-' then '_' else c.toLower)
    | .stray n => .stray n

/-- What every envelope has to be (`control_plane.py:743-757`): the operation, the request and the
    body the operation is called with. -/
def openEnvelope (host : Host) (data : List (Text × Json)) :
    Except HostError (Text × Text × List (Text × Json)) := do
  known data ["v", "op", "request_id", "generation", "call_id", "args"]
  if !((field data "v").any (isOne host)) then
    .error (.control "protocol" (Text.lit "managed-turn envelope requires v=1"))
  else
    let op ← requiredString (field data "op") "op" 64
    let rid ← requiredString (field data "request_id") "request_id" 128
    match (field data "args").getD (.obj []) with
    | .obj args =>
        let body := assign "request_id" (.str rid) args
        let body := ((field data "generation").map fun g => assign "generation" g body).getD body
        let body := ((field data "call_id").map fun c => assign "call_id" c body).getD body
        .ok (operationName op, rid, body)
    | _ => .error (.control "invalid" (Text.lit "args must be a JSON object"))

/-- The branch `before_tool` of `_managed_turn` (`control_plane.py:762-770`). -/
def managedIntent (host : Host) (clk : Clock) (data : List (Text × Json)) (rid : Text)
    (body : List (Text × Json)) (db : Db) : Except HostError Intent × Db :=
  let ttl := (field body "ttl_ms").getD (.int 5000)
  match controlStartTool host (body.filter (·.1 != Text.lit "ttl_ms")) db with
  | (.error e, db') => (.error e, db')
  | (.ok started, db') =>
      match controlActionEligible host clk
        [(Text.lit "request_id", .str rid),
          (Text.lit "generation", (field data "generation").getD .null),
          (Text.lit "call_id", (field data "call_id").getD .null),
          (Text.lit "ttl_ms", ttl)] db' with
      | (.error e, db'') => (.error e, db'')
      | (.ok lease, db'') => (.ok ⟨started, some lease⟩, db'')

/-- What `_managed_turn` returns: an intent, or what the operation it stands for returns. -/
inductive ManagedReply where
  | intent (i : Intent)
  | reply (j : Json)

/-- `"error" in body` of `after_model` and `after_tool` (`control_plane.py:771-778`): the failure
    takes the place of the result. -/
def failureBody (key exclusive message : String) (body : List (Text × Json)) :
    Except HostError (List (Text × Json)) :=
  match field body "error" with
  | none => .ok body
  | some e =>
      if (field body exclusive).isSome then .error (.control "invalid" (Text.lit message))
      else .ok (assign key (.obj [(Text.lit "error", e)])
        (body.filter (·.1 != Text.lit "error")))

/-- `mapping.get(op, op)` (`control_plane.py:758-761`). -/
def mappedOperation (op : Text) : Text :=
  if op = Text.lit "inspect" then Text.lit "turn"
  else if op = Text.lit "before_model" then Text.lit "model_request"
  else if op = Text.lit "after_model" then Text.lit "model_response"
  else if op = Text.lit "after_tool" then Text.lit "tool_finish"
  else op

/-- `_managed_turn` (`control_plane.py:741-779`); `dispatch` is the table of the operations other
    than the two of an intent. -/
def managedTurn (host : Host) (clk : Clock)
    (dispatch : Text → List (Text × Json) → Db → Except HostError Json × Db)
    (data : List (Text × Json)) (db : Db) : Except HostError ManagedReply × Db :=
  match openEnvelope host data with
  | .error e => (.error e, db)
  | .ok (op, rid, body) =>
      if op = Text.lit "before_tool" then
        let answer := managedIntent host clk data rid body db
        (answer.1.map .intent, answer.2)
      else
        let rewritten :=
          if op = Text.lit "after_model" then
            failureBody "response" "response_json"
              "after_model accepts response_json or error, not both" body
          else if op = Text.lit "after_tool" then
            failureBody "result" "result" "after_tool accepts result or error, not both" body
          else .ok body
        match rewritten with
        | .error e => (.error e, db)
        | .ok body =>
            let answer := dispatch (mappedOperation op) body db
            (answer.1.map .reply, answer.2)

/-- The envelope `CMPClient.before_tool` sends (`cmp_client.py:139-162, 215-221`). -/
def IntentRequest.envelope (q : IntentRequest) : List (Text × Json) :=
  [(Text.lit "v", .int 1), (Text.lit "op", .str (Text.lit "before_tool")),
    (Text.lit "request_id", .str q.requestId),
    (Text.lit "args", .obj [(Text.lit "name", .str q.name), (Text.lit "arguments", q.arguments),
      (Text.lit "ttl_ms", .int q.ttlMs)]),
    (Text.lit "generation", .int q.generation), (Text.lit "call_id", .str q.callId)]

end Cmpath
