import Cmpath.Engine.Freshness

/-!
# The turn journal

`native/engine/harness.go` and `native/engine/model_response.go`: the operations on turns, tool
calls, model calls and leases. Each is the body of one transaction; a check the source makes
before the transaction fails at the same point, before anything is read.
-/

namespace Cmpath
open Lib Lib.Txn

/-- `Reply` (`harness.go:9-14`). A nil snapshot is `none`. -/
structure Reply where
  text : Text
  snapshot : Option Json := none
  facts : List FactUpdate := []
  provenance : List ProvenanceRef := []

/-- A list field tagged `omitempty`. -/
def omitEmptyList (key : Text) (items : List Json) : List (Text × Json) :=
  if items.isEmpty then [] else [(key, .arr items)]

/-- `Reply` as `encoding/json` writes it: an empty snapshot is omitted as a nil one is. -/
def Reply.toJson (r : Reply) : Json :=
  .obj ([(Text.lit "text", .str r.text)] ++
    (match r.snapshot.map object with
      | some (.obj (f :: fields)) => [(Text.lit "snapshot", .obj (f :: fields))]
      | _ => []) ++
    omitEmptyList (Text.lit "facts") (r.facts.map FactUpdate.toJson) ++
    omitEmptyList (Text.lit "provenance") (r.provenance.map ProvenanceRef.toJson))

/-- Read a `Reply` back. -/
def Reply.ofJson (j : Json) : Reply :=
  { text := ((j.get? (Text.lit "text")).getD .null).text
    snapshot := j.get? (Text.lit "snapshot")
    facts := ((j.get? (Text.lit "facts")).getD .null).items.map FactUpdate.ofJson
    provenance := ((j.get? (Text.lit "provenance")).getD .null).items.map ProvenanceRef.ofJson }

/-- `Turn` (`harness.go:23-33`). -/
structure Turn where
  requestId : Text
  taskId : Int
  status : TurnStatus
  generation : Int
  taskRevision : Int
  package : Package
  reply : Option Reply := none
  created : Bool := false
  replayed : Bool := false

/-- The turn a row reads as. -/
def TurnRow.turn (t : TurnRow) : Turn :=
  { requestId := t.requestId, taskId := t.taskId, status := t.status, generation := t.generation
    taskRevision := t.taskRevision, package := .ofJson t.packageJson
    reply := t.replyJson.map Reply.ofJson }

/-- `turn` (`harness.go:35-63`), the row it reads. -/
def turnRow (id : Text) : Query TurnRow := fun db =>
  match db.turn? id with
  | some t => .ok t
  | none =>
      if (db.retired? id).isSome then
        problem .retired "turn journal was retired; this request ID cannot execute again"
      else problem .notFound "turn does not exist"

/-- `turn` (`harness.go:35-63`). -/
def turn (id : Text) : Query Turn := fun db => do
  let t ← turnRow id db
  .ok t.turn

/-- `pending` (`harness.go:68-80`). -/
def pending (id : Text) (generation : Int) : Query TurnRow := fun db => do
  let t ← turnRow id db
  if t.status != .pending then problem .state "turn is not pending"
  else if t.generation != generation then problem .fenced "worker generation is stale"
  else .ok t

/-! ## Begin, Recover, Commit, Abort -/

/-- The source of the messages a turn writes itself: `{"request_id": id}`. -/
def turnSource (id : Text) : Json := .obj [(Text.lit "request_id", .str id)]

/-- `UPDATE tasks SET status='open',revision=revision+1 WHERE id=?`. -/
def TaskRow.reopen (t : TaskRow) : TaskRow :=
  { t with status := .opened, revision := t.revision + 1 }

/-- Reopen an archived task (`harness.go:131-136`); returns its revision afterwards. -/
def reopenTask (t : Task) : Tx Int :=
  if t.status = .archived then do
    updateTask t.id TaskRow.reopen
    pure (t.revision + 1)
  else pure t.revision

/-- The row `Begin` inserts (`harness.go:153`). -/
def newTurn (host : Host) (clk : Clock) (r : Request) (revision : Int) (payload : Package) :
    TurnRow :=
  { requestId := r.requestId, taskId := r.taskId, fingerprint := fingerprint host r.toJson
    requestJson := encode r.toJson, status := .pending, generation := 1
    taskRevision := revision, packageJson := encode payload.toJson, replyJson := none
    commitHash := none, createdAt := clk.now 2, updatedAt := clk.now 3 }

/-- `Begin` for a request ID the journal does not know (`harness.go:120-164`). -/
def createTurn (host : Host) (clk : Clock) (r : Request) (c : Counter) : Tx Turn := do
  require (fun db => !db.turns.any fun t => t.taskId == r.taskId && t.status == .pending)
    (.problem .busy "task already has an unfinished turn")
  let t ← read (task r.taskId)
  let revision ← reopenTask t
  let payload ← read (pack host r c)
  let _ ← append (clk.now 0)
    ⟨r.taskId, Text.lit "user", r.query, some (turnSource r.requestId)⟩
  setActiveTask (some r.taskId)
  insertEvent .harnessBegin r.taskId (clk.now 1)
  insertTurn (newTurn host clk r revision payload)
  captureBasis r
  let out ← read (turn r.requestId)
  pure { out with created := true }

/-- The transaction of `Begin` (`harness.go:97-165`). -/
def beginNormal (host : Host) (clk : Clock) (r : Request) (c : Counter) : Tx Turn := fun db =>
  match db.retired? r.requestId with
  | some old =>
      if old.fingerprint != fingerprint host r.toJson then
        problem .conflict "retired request ID was used with different input"
      else
        problem .retired
          "turn journal was retired; use a new ID only for genuinely new work"
  | none =>
      match db.turn? r.requestId with
      | some old =>
          if old.fingerprint != fingerprint host r.toJson then
            problem .conflict "request ID was used with different input"
          else .ok ({ old.turn with replayed := true }, db)
      | none => createTurn host clk r c db

/-- `Begin` (`harness.go:84-168`). -/
def begin (host : Host) (clk : Clock) (input : Request) (custom : List CustomCounter) : Tx Turn :=
  fun db =>
    match normalizeRequest input custom with
    | .error e => .error e
    | .ok (r, c) => beginNormal host clk r c db

/-- `UPDATE cmp_turns SET generation=generation+1,updated_at=?`. -/
def TurnRow.recover (now : Stamp) (t : TurnRow) : TurnRow :=
  { t with generation := t.generation + 1, updatedAt := now }

/-- `UPDATE cmp_turns SET status='aborted',updated_at=?`. -/
def TurnRow.abort (now : Stamp) (t : TurnRow) : TurnRow :=
  { t with status := .aborted, updatedAt := now }

/-- `Recover` (`harness.go:172-190`). -/
def recover (clk : Clock) (id : Text) (expectedGeneration : Int) : Tx Turn := do
  let old ← read (pending id expectedGeneration)
  let t ← read (task old.taskId)
  ensure (t.revision == old.taskRevision)
    (.problem .conflict "task snapshot changed; abort and prepare a new turn")
  updateTurn id (TurnRow.recover (clk.now 0))
  read (turn id)

/-- The reply publishes another snapshot than the one the turn was packed with
    (`harness.go:236-247`). -/
def snapshotChanged (packed : Package) (reply : Reply) : Bool :=
  match reply.snapshot with
  | none => false
  | some after => packed.snapshot.marshal != (object after).marshal

/-- The checks of `Commit` on a pending turn (`harness.go:218-268`); returns the turn's row and
    its task. -/
def commitChecks (id : Text) (generation : Int) (reply : Reply) : Query (TurnRow × Task) :=
  fun db => do
    let current ← pending id generation db
    validateBasis id db
    let request ← turnRequest id db
    let t ← task current.taskId db
    if request.scopeBound && snapshotChanged (.ofJson current.packageJson) reply &&
        reply.provenance.isEmpty then
      problem .provenanceRequired "scoped snapshot writes must declare evidence provenance"
    else
      validateProvenance request t.id reply.provenance db
      if t.revision != current.taskRevision then
        problem .conflict "task snapshot changed during execution"
      else if db.toolCalls.any fun c => c.requestId == id && c.status == .started then
        problem .indeterminateTool "tool intent has no confirmed result"
      else .ok (current, t)

/-- The facts of a reply, from the n-th clock reading on. -/
def setFacts (clk : Clock) (taskId : Int) : Nat → List FactUpdate → Tx Unit
  | _, [] => pure ()
  | n, fact :: rest => do
      setFact (clk.now n) taskId fact
      setFacts clk taskId (n + 1) rest

/-- One provenance row (`harness.go:292`). -/
def recordReference (now : Stamp) (id : Text) (ref : ProvenanceRef) : Tx Unit :=
  match EdgeKind.ofText? ref.kind with
  | none => fail (.constraint "CHECK constraint failed: kind")
  | some kind => insertProvenance ⟨id, ref.evidenceId, kind, now⟩

/-- The provenance rows of a reply, from the n-th clock reading on (`harness.go:291-295`). -/
def recordProvenance (clk : Clock) (id : Text) : Nat → List ProvenanceRef → Tx Unit
  | _, [] => pure ()
  | n, ref :: rest => do
      recordReference (clk.now n) id ref
      recordProvenance clk id (n + 1) rest

/-- `UPDATE tasks SET snapshot=?,revision=revision+1 WHERE id=?`. -/
def TaskRow.withSnapshot (snapshot : Json) (t : TaskRow) : TaskRow :=
  { t with snapshot := snapshot, revision := t.revision + 1 }

/-- `UPDATE cmp_turns SET status='committed',reply_json=?,commit_hash=?,updated_at=?`. -/
def TurnRow.commit (reply : Json) (hash : Text) (now : Stamp) (t : TurnRow) : TurnRow :=
  { t with status := .committed, replyJson := some reply, commitHash := some hash, updatedAt := now }

/-- `Commit` of a pending turn (`harness.go:218-306`). -/
def commitPending (host : Host) (clk : Clock) (id : Text) (generation : Int) (reply : Reply) :
    Tx Turn := do
  let (_, t) ← read (commitChecks id generation reply)
  let _ ← append (clk.now 0) ⟨t.id, Text.lit "assistant", reply.text, some (turnSource id)⟩
  setFacts clk t.id 3 reply.facts
  updateTask t.id (TaskRow.withSnapshot (encode (object (reply.snapshot.getD t.snapshot))))
  recordProvenance clk id (3 + reply.facts.length) reply.provenance
  updateTurn id
    (TurnRow.commit (encode reply.toJson) (fingerprint host reply.toJson) (clk.now 1))
  insertEvent .harnessCommit t.id (clk.now 2)
  read (turn id)

/-- `Commit` (`harness.go:191-309`). -/
def commit (host : Host) (clk : Clock) (id : Text) (generation : Int) (reply : Reply) : Tx Turn :=
  fun db =>
    if !textOK reply.text then problem .invalid "final reply must be nonempty UTF-8"
    else
      match turnRow id db with
      | .error e => .error e
      | .ok current =>
          if current.status = .committed then
            if current.generation != generation then
              problem .fenced "worker generation is stale"
            else if current.commitHash != some (fingerprint host reply.toJson) then
              problem .conflict "turn was committed with a different reply"
            else .ok ({ current.turn with replayed := true }, db)
          else commitPending host clk id generation reply db

/-- `Abort` (`harness.go:310-318`). -/
def abort (clk : Clock) (id : Text) (generation : Int) : Tx Unit := do
  let _ ← read (pending id generation)
  updateTurn id (TurnRow.abort (clk.now 0))

/-! ## Tools -/

/-- `ToolCall` (`harness.go:320-328`). -/
structure ToolCall where
  callId : Text
  name : Text
  arguments : Json
  status : ToolStatus
  result : Json := .null
  evidenceId : Int := 0
  created : Bool := false

/-- The call a row reads as. -/
def ToolRow.call (t : ToolRow) : ToolCall :=
  { callId := t.callId, name := t.name, arguments := t.argsJson, status := t.status
    result := t.resultJson.getD .null, evidenceId := t.evidenceId.getD 0 }

/-- `ActionLease` (`harness.go:330-337`). -/
structure ActionLease where
  token : Text
  requestId : Text
  callId : Text
  generation : Int
  argsHash : Text
  expiresAt : Int
  deriving DecidableEq

/-- `tool` (`harness.go:339-361`), the row it reads. -/
def toolRow (id callId : Text) : Query ToolRow := fun db =>
  match db.tool? id callId with
  | some t => .ok t
  | none => problem .notFound "tool call does not exist"

/-- `Tools` (`harness.go:362-378`). -/
def tools (id : Text) : Query (List ToolCall) := fun db =>
  .ok ((db.toolCalls.filter (·.requestId == id)).map ToolRow.call)

/-- The digest of a tool's name and arguments. -/
def callHash (host : Host) (name : Text) (args : Json) : Text :=
  fingerprint host (.arr [.str name, args])

/-- `ActionEligible` (`harness.go:383-421`). -/
def actionEligible (host : Host) (clk : Clock) (id : Text) (generation : Int) (callId : Text)
    (ttlMs : Int) : Tx ActionLease := do
  ensure (textOK callId && callId.size ≤ 128) (.problem .invalid "tool call ID is required")
  let ttl := if ttlMs = 0 then 5000 else ttlMs
  ensure (1 ≤ ttl && ttl ≤ 600000)
    (.problem .invalid "lease TTL must be between 1 and 600000 milliseconds")
  let _ ← read (pending id generation)
  let call ← read (toolRow id callId)
  ensure (call.status == .started)
    (.problem .state "only a started tool intent can receive an action lease")
  read (validateBasis id)
  let hash := callHash host call.name call.argsJson
  let expires := clk.millis + ttl
  let token :=
    fingerprint host (.arr [.str id, .int generation, .str callId, .str hash, .int expires])
  insertLease ⟨token, id, generation, callId, hash, expires, clk.now 0⟩
  pure ⟨token, id, callId, generation, hash, expires⟩

/-- The row `StartTool` inserts (`harness.go:448`). -/
def newTool (host : Host) (id callId name : Text) (args : Json) : ToolRow :=
  { requestId := id, callId := callId, name := name, argsJson := encode args.canon
    fingerprint := callHash host name args.canon, status := .started, resultJson := none
    evidenceId := none }

/-- `StartTool` of a call the journal does not know (`harness.go:444-452`). -/
def createTool (host : Host) (id callId name : Text) (args : Json) : Tx ToolCall := do
  read (validateBasis id)
  insertToolCall (newTool host id callId name args)
  let out ← read (toolRow id callId)
  pure { out.call with created := true }

/-- `StartTool` (`harness.go:422-455`). -/
def startTool (host : Host) (id : Text) (generation : Int) (callId name : Text) (args : Json) :
    Tx ToolCall := do
  ensure (textOK callId && textOK name && callId.size ≤ 128)
    (.problem .invalid "tool call ID and name are required")
  let _ ← read (pending id generation)
  let old ← read fun db => .ok (db.tool? id callId)
  match old with
  | some call =>
      if call.fingerprint != callHash host name args.canon then
        fail (.problem .conflict "tool call ID has different input")
      else pure call.call
  | none => createTool host id callId name args

/-- `validateActionLease` (`harness.go:516-538`). -/
def validateActionLease (host : Host) (clk : Clock) (id : Text) (generation : Int)
    (callId : Text) (call : ToolRow) (token : Text) : Query Unit := fun db =>
  match db.actionLeases.find? fun l => l.token == token && l.requestId == id with
  | none => problem .staleContext "action eligibility lease is missing"
  | some l =>
      if l.generation != generation || l.callId != callId then
        problem .fenced "action eligibility lease belongs to another worker or tool"
      else if l.expiresAt ≤ clk.millis then
        problem .staleContext "action eligibility lease has expired"
      else if l.argsHash != callHash host call.name call.argsJson then
        problem .conflict "action eligibility lease arguments do not match the recorded intent"
      else .ok ()

/-- The lease tokens `FinishTool` was given (`harness.go:479-486`). -/
def checkLease (host : Host) (clk : Clock) (id : Text) (generation : Int) (callId : Text)
    (call : ToolRow) (tokens : List Text) : Query Unit := fun db =>
  match tokens with
  | [] => .ok ()
  | [token] =>
      if token = [] then .ok () else validateActionLease host clk id generation callId call token db
  | _ => problem .invalid "at most one action lease token is allowed"

/-- The source of a tool result (`harness.go:495`), in key order. -/
def toolSource (id callId name : Text) : Json :=
  .obj [(Text.lit "call_id", .str callId), (Text.lit "request_id", .str id),
    (Text.lit "tool", .str name)]

/-- `UPDATE cmp_tool_calls SET status='completed',result_json=?,evidence_id=?`. -/
def ToolRow.complete (raw : Json) (evidenceId : Int) (t : ToolRow) : ToolRow :=
  { t with status := .completed, resultJson := some raw, evidenceId := some evidenceId }

/-- `FinishTool` of a started call (`harness.go:479-512`). -/
def recordResult (clk : Clock) (id callId : Text) (taskId : Int) (call : ToolRow) (raw : Json) :
    Tx ToolCall := do
  let taskBefore ← read (scopeEpoch taskId)
  let globalBefore ← read (scopeEpoch 0)
  let ev ← append (clk.now 0)
    ⟨taskId, Text.lit "tool", raw.marshal, some (toolSource id callId call.name)⟩
  advanceBasis id taskId taskBefore
  advanceBasis id 0 globalBefore
  updateToolCall id callId (ToolRow.complete raw ev.id)
  let out ← read (toolRow id callId)
  pure out.call

/-- `FinishTool` (`harness.go:456-515`). -/
def finishTool (host : Host) (clk : Clock) (id : Text) (generation : Int) (callId : Text)
    (result : Json) (tokens : List Text) : Tx ToolCall := do
  let raw := encode result.canon
  let turn ← read (pending id generation)
  let call ← read (toolRow id callId)
  if call.status = .completed then
    if call.resultJson.map Json.marshal != some raw.marshal then
      fail (.problem .conflict "tool result was already recorded differently")
    else pure call.call
  else do
    read (checkLease host clk id generation callId call tokens)
    recordResult clk id callId turn.taskId call raw

/-! ## Model calls -/

/-- `RecordModelRequest` (`harness.go:542-571`). -/
def recordModelRequest (host : Host) (id : Text) (generation : Int) (callId payload : Text)
    (units : Int) (counting : Text) : Tx Unit := do
  ensure (textOK callId && textOK counting && 0 ≤ units)
    (.problem .invalid "model call ID, counting method and nonnegative units are required")
  read fun _ => checkedJSON host payload
  let turn ← read (pending id generation)
  ensure (units ≤ (Package.ofJson turn.packageJson).inputAllowance)
    (.problem .budget "complete model payload exceeds the input allowance")
  let old ← read fun db => .ok (db.modelCall? id callId)
  match old with
  | some m =>
      ensure (m.payloadJson == payload && m.units == units && m.counting == counting)
        (.problem .conflict "model call ID has a different payload or count")
  | none => do
      read (validateBasis id)
      insertModelCall ⟨id, callId, payload, units, counting⟩

/-- `ModelCall` (`model_response.go:5-12`). -/
structure ModelCall where
  callId : Text
  payloadJson : Text
  units : Int
  counting : Text
  responseJson : Option Text
  responseCreatedAt : Option Text
  deriving DecidableEq

/-- `ModelCalls` (`model_response.go:15-44`). -/
def modelCalls (id : Text) : Query (List ModelCall) := fun db => do
  let _ ← turn id db
  .ok ((db.modelCalls.filter (·.requestId == id)).map fun m =>
    let response := db.modelResponse? m.requestId m.callId
    { callId := m.callId, payloadJson := m.payloadJson, units := m.units, counting := m.counting
      responseJson := response.map (·.responseJson)
      responseCreatedAt := response.map (·.createdAt.text) })

/-- `RecordModelResponse` (`model_response.go:47-80`). -/
def recordModelResponse (host : Host) (clk : Clock) (id : Text) (generation : Int)
    (callId response : Text) : Tx Unit := do
  ensure (textOK callId) (.problem .invalid "model call ID is required")
  read fun _ => checkedJSON host response
  ensure (host.jsonObject response)
    (.problem .invalid "provider response must be a JSON object")
  let _ ← read (pending id generation)
  require (fun db => (db.modelCall? id callId).isSome)
    (.problem .notFound "model request must be journaled before its response")
  let old ← read fun db => .ok (db.modelResponse? id callId)
  match old with
  | some r =>
      ensure (r.responseJson == response)
        (.problem .conflict "model response is already recorded with different bytes")
  | none => insertModelResponse ⟨id, callId, response, clk.now 0⟩

end Cmpath
