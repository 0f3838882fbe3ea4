import Cmpath.Autosave.Wire
import Cmpath.Engine.Operation
import Cmpath.Lib.OrderedDict
import Cmpath.Lib.Proc
import Cmpath.Memory.Context

/-!
# The reference adapter

`LocalAdapter` of `conformance/reference.py`: the contract of a harness adapter over a `TaskMemory`
of its own, with the journal in dictionaries. What an operation changed before it raises stays.
-/

namespace Cmpath.Conformance
open Lib Lib.Proc Autosave

/-- The values `int(…)` makes of JSON values other than an integer or a boolean. -/
structure Interpreter extends Host where
  int : Json → Option Int

/-- `_wire` (`reference.py:31-32`). -/
def wire (value : Json) : Except Failure Text := TaskMemory.json value

/-- `_hash` (`reference.py:35-36`). -/
def hash (host : Host) (value : Json) : Except Failure Text := do
  let raw ← wire value
  if raw.valid then .ok (host.sha256 raw).text
  else .error (.raised .value "surrogates not allowed")

/-- The package of a turn (`reference.py:101-110`). -/
structure Package extends TaskMemory.ContextPackage where
  messages : Option (List Message)
  snapshot : Json
  consistency : Text

/-- A turn of `turns`. -/
structure Turn where
  requestId : Text
  taskId : Int
  status : TurnStatus
  generation : Int
  taskRevision : Int
  scopeEpoch : Int
  package : Package
  reply : Option Json
  fingerprint : Text
  created : Bool
  replayed : Bool

/-- A record of `calls`. -/
structure ModelCall where
  requestId : Text
  callId : Text
  payloadJson : Text
  units : Int
  responseJson : Option Text

/-- A row of `tools`. -/
structure Tool where
  requestId : Text
  callId : Text
  name : Text
  arguments : Json
  argumentsJson : Text
  fingerprint : Text
  status : ToolStatus
  result : Option Json
  resultJson : Option Text
  evidenceId : Option Int
  created : Bool

/-- A lease of `leases`. -/
structure Lease where
  requestId : Text
  generation : Int
  callId : Text
  fingerprint : Text
  expiresAt : Int

/-- What `action_eligible` returns. -/
structure Eligible extends Lease where
  token : Text

/-- The adapter. -/
structure LocalAdapter where
  memory : Db
  turns : OrderedDict Text Turn
  calls : OrderedDict (Text × Text) ModelCall
  tools : OrderedDict (Text × Text) Tool
  leases : OrderedDict Text Lease
  epoch : OrderedDict Int Int
  leaseNonce : Int

/-- `__init__` (`reference.py:55-63`). -/
def LocalAdapter.new : LocalAdapter := ⟨.empty, .empty, .empty, .empty, .empty, .empty, 0⟩

/-- An operation of the adapter. -/
abbrev Local (α : Type) : Type := Proc LocalAdapter Failure α

/-- `raise AdapterError(code, message)`. -/
def rejected (code : Code) (message : String) : Failure := .problem code message

/-- A write method of the memory, one transaction. -/
def onMemory {α : Type} (t : Tx α) : Local α := fun s =>
  ((Txn.atomic t s.memory).1, { s with memory := (Txn.atomic t s.memory).2 })

/-- A reader of the memory. -/
def asking {α : Type} (q : Query α) : Local α := ask fun s => q s.memory

/-- A dictionary whose text can be written. -/
def dictionary (value : Json) (message : String) : Local Unit := do
  ensure (isObject value) (.raised .value message)
  ensure value.finite (.raised .value "Out of range float values are not JSON compliant")

/-- `except (KeyError, ValueError) as exc: raise AdapterError("invalid", str(exc))`. -/
def invalidated : Failure → Failure
  | .raised .key message | .raised .value message | .raised .budget message =>
      rejected .invalid message
  | e => e

def invalidating {α : Type} (p : Local α) : Local α := p.mapError invalidated

/-- `self._epoch.get(task_id, 0)`. -/
def LocalAdapter.epochOf (s : LocalAdapter) (taskId : Int) : Int := (s.epoch.get? taskId).getD 0

/-- `_touch` (`reference.py:68-69`). -/
def touch (taskId : Int) : Local Unit :=
  modify fun s => { s with epoch := s.epoch.set taskId (s.epochOf taskId + 1) }

/-- `create_task` (`reference.py:77-80`). -/
def createTask (host : Host) (clk : Clock) (title : Text) (snapshot : Option Json) : Local Int := do
  dictionary (snapshot.getD (.obj [])) "snapshot must be a JSON object"
  let id ← onMemory (TaskMemory.createTask host clk title [] [] (snapshot.getD (.obj [])))
  modify fun s => { s with epoch := s.epoch.set id 0 }
  pure id

/-- `append_evidence` (`reference.py:82-86`). -/
def appendEvidence (clk : Clock) (taskId : Int) (role content : Text) (source : Json) :
    Local MessageRow := do
  dictionary source "source must be a JSON object"
  let id ← onMemory (TaskMemory.append clk taskId role content source)
  touch taskId
  asking (TaskMemory.message id)

/-- The arguments of `begin`; `extra` are further keywords. -/
structure BeginArgs where
  requestId : Text
  taskId : Int
  query : Text
  system : Text := []
  modelKey : Text := []
  budget : Int := 2000
  reserve : Int := 0
  scope : Text := Text.lit "lineage"
  retrievalLimit : Int := 24
  recent : Int := 4
  consistency : Text := Text.lit "snapshot"
  extra : List (Text × Json) := []

/-- `identity` (`reference.py:122-125`). -/
def BeginArgs.identity (a : BeginArgs) : Json :=
  .obj ([(Text.lit "task_id", .int a.taskId), (Text.lit "query", .str a.query),
    (Text.lit "system", .str a.system), (Text.lit "model_key", .str a.modelKey),
    (Text.lit "budget", .int a.budget), (Text.lit "reserve", .int a.reserve),
    (Text.lit "scope", .str a.scope), (Text.lit "retrieval_limit", .int a.retrievalLimit),
    (Text.lit "recent", .int a.recent), (Text.lit "consistency", .str a.consistency)] ++ a.extra)

/-- `_package` (`reference.py:88-110`). -/
def package (host : Host) (a : BeginArgs) : Query Package := fun db => do
  let built ← TaskMemory.context host a.taskId
    { query := a.query, budget := a.budget, reserve := a.reserve, system := a.system
      scope := a.scope, retrievalLimit := a.retrievalLimit, recent := a.recent } db
  let task ← TaskMemory.findTask a.taskId db
  .ok { built with
    messages := built.asMessages, snapshot := task.snapshot.held host.floatRepr
    consistency := a.consistency }

/-- The part of `begin` that works on the memory (`reference.py:140-151`). -/
def prepareTurn (host : Host) (clk : Clock) (a : BeginArgs) : Local (Package × TaskRow) :=
  invalidating do
    let package ← asking (package host a)
    let task ← asking (TaskMemory.findTask a.taskId)
    let _ ← appendEvidence clk a.taskId Role.user.text a.query
      (.obj [(Text.lit "request_id", .str a.requestId)])
    pure (package, task)

/-- `begin` of a request identifier that is not in use (`reference.py:136-160`). -/
def openTurn (host : Host) (clk : Clock) (a : BeginArgs) (fingerprint : Text) : Local Turn := do
  require (fun s => !s.turns.entries.any fun t =>
      t.2.taskId == a.taskId && t.2.status == .pending)
    (rejected .busy "task already has an unfinished turn")
  let (package, task) ← prepareTurn host clk a
  let epoch ← ask fun s => .ok (s.epochOf a.taskId)
  let turn : Turn :=
    { requestId := a.requestId, taskId := a.taskId, status := .pending, generation := 1
      taskRevision := task.revision, scopeEpoch := epoch, package := package, reply := none
      fingerprint := fingerprint, created := true, replayed := false }
  modify fun s => { s with turns := s.turns.set a.requestId turn }
  pure turn

/-- `begin` (`reference.py:115-160`). -/
def begin (host : Host) (clk : Clock) (a : BeginArgs) : Local Turn := do
  ensure (a.requestId.strip != []) (rejected .invalid "request ID is required")
  ensure (a.consistency == Text.lit "snapshot" || a.consistency == Text.lit "scope")
    (rejected .invalid "unsupported consistency mode")
  let fingerprint ← ask fun _ => hash host a.identity
  let old ← ask fun s => .ok (s.turns.get? a.requestId)
  match old with
  | some old =>
      if old.fingerprint ≠ fingerprint then
        raise (rejected .conflict "request ID was used with different input")
      else pure { old with replayed := true, created := false }
  | none => openTurn host clk a fingerprint

/-- `inspect` (`reference.py:162-165`). -/
def inspect (requestId : Text) : Local Turn :=
  ask fun s =>
    match s.turns.get? requestId with
    | none => .error (rejected .notFound "turn does not exist")
    | some turn => .ok turn

/-- `_pending` (`reference.py:167-175`). -/
def pending (requestId : Text) (generation : Int) : Local Turn :=
  ask fun s =>
    match s.turns.get? requestId with
    | none => .error (rejected .notFound "turn does not exist")
    | some turn =>
        if turn.status ≠ .pending then .error (rejected .state "turn is not pending")
        else if turn.generation ≠ generation then
          .error (rejected .fenced "worker generation is stale")
        else .ok turn

/-- `turn[…] = …`. -/
def storeTurn (requestId : Text) (turn : Turn) : Local Unit :=
  modify fun s => { s with turns := s.turns.set requestId turn }

/-- `recover` (`reference.py:177-182`). -/
def recover (requestId : Text) (expectedGeneration : Int) : Local Turn := do
  let turn ← pending requestId expectedGeneration
  let task ← asking (TaskMemory.findTask turn.taskId)
  ensure (task.revision == turn.taskRevision)
    (rejected .conflict "task snapshot changed; prepare a new turn")
  storeTurn requestId { turn with generation := turn.generation + 1 }
  pure { turn with generation := turn.generation + 1 }

/-- `checkpoint_model_request` (`reference.py:184-202`). -/
def checkpointModelRequest (requestId : Text) (generation : Int) (callId : Text) (payload : Json)
    (units : Int) : Local Text := do
  let turn ← pending requestId generation
  ensure (callId.strip != []) (rejected .invalid "model call ID is required")
  ensure (0 ≤ units) (rejected .invalid "model units must be nonnegative")
  let raw ← ask fun _ => wire payload
  ensure (units ≤ turn.package.inputAllowance)
    (rejected .budget "complete model payload exceeds allowance")
  let old ← ask fun s => .ok (s.calls.get? (requestId, callId))
  match old with
  | some old =>
      ensure (old.payloadJson == raw && old.units == units)
        (rejected .conflict "model call ID has different payload or count")
  | none =>
      modify fun s => { s with
        calls := s.calls.set (requestId, callId) ⟨requestId, callId, raw, units, none⟩ }
  ensure raw.valid (.raised .value "surrogates not allowed")
  pure raw

/-- The value and the text of a response (`reference.py:210-222`). -/
def readResponse : Json → Except Failure (Json × Text)
  | .str response =>
      match Json.loads response with
      | none => .error (rejected .invalid "invalid provider response JSON")
      | some value => .ok (value, response)
  | value =>
      match wire value with
      | .error _ => .error (rejected .invalid "invalid provider response JSON")
      | .ok raw => .ok (value, raw)

/-- `record_model_response` (`reference.py:204-229`). -/
def recordModelResponse (requestId : Text) (generation : Int) (callId : Text) (response : Json) :
    Local Unit := do
  let _ ← pending requestId generation
  let old ← ask fun s => .ok (s.calls.get? (requestId, callId))
  match old with
  | none => raise (rejected .notFound "model request is not checkpointed")
  | some call => do
      let (value, raw) ← ask fun _ => readResponse response
      ensure (isObject value) (rejected .invalid "provider response must be a JSON object")
      ensure (call.responseJson.all (· == raw))
        (rejected .conflict "model response was already recorded differently")
      modify fun s => { s with
        calls := s.calls.set (requestId, callId) { call with responseJson := some raw } }

/-- `model_calls` (`reference.py:231-232`). -/
def modelCalls (requestId : Text) : Local (List ModelCall) :=
  ask fun s => .ok ((s.calls.entries.filter fun e => e.1.1 == requestId).map Prod.snd)

/-- `start_tool` (`reference.py:234-256`). -/
def startTool (host : Host) (requestId : Text) (generation : Int) (callId name : Text)
    (arguments : Json) : Local Tool := do
  let _ ← pending requestId generation
  ensure (callId.strip != [] && name.strip != [])
    (rejected .invalid "tool call ID and name are required")
  let raw ← ask fun _ => (wire arguments).mapError fun _ =>
    rejected .invalid "tool arguments are not JSON"
  let fingerprint ← ask fun _ => hash host (.arr [.str name, arguments])
  let old ← ask fun s => .ok (s.tools.get? (requestId, callId))
  match old with
  | some tool =>
      if tool.fingerprint ≠ fingerprint then
        raise (rejected .conflict "tool call ID has different input")
      else pure { tool with created := false }
  | none => do
      let row : Tool :=
        { requestId := requestId, callId := callId, name := name, arguments := arguments
          argumentsJson := raw, fingerprint := fingerprint, status := .started, result := none
          resultJson := none, evidenceId := none, created := true }
      modify fun s => { s with tools := s.tools.set (requestId, callId) row }
      pure row

/-- `self.tools.get((request_id, call_id))`, where there is one. -/
def knownTool (requestId callId : Text) : Local Tool :=
  ask fun s =>
    match s.tools.get? (requestId, callId) with
    | none => .error (rejected .notFound "tool call does not exist")
    | some tool => .ok tool

/-- `action_eligible` (`reference.py:258-280`). -/
def actionEligible (host : Host) (clk : Clock) (requestId : Text) (generation : Int)
    (callId : Text) (ttlMs : Int) : Local Eligible := do
  let turn ← pending requestId generation
  ensure (1 ≤ ttlMs && ttlMs ≤ 600000)
    (rejected .invalid "lease TTL must be between 1 and 600000 milliseconds")
  let tool ← knownTool requestId callId
  ensure (tool.status == .started) (rejected .state "only a started tool can receive a lease")
  require (fun s => s.epochOf turn.taskId == turn.scopeEpoch)
    (rejected .staleContext "captured scope changed")
  modify fun s => { s with leaseNonce := s.leaseNonce + 1 }
  let nonce ← ask fun s => .ok s.leaseNonce
  let expires := clk.millis + ttlMs
  let token ← ask fun _ => hash host (.arr [.str requestId, .int generation, .str callId,
    .str tool.fingerprint, .int expires, .int nonce])
  let lease : Lease := ⟨requestId, generation, callId, tool.fingerprint, expires⟩
  modify fun s => { s with leases := s.leases.set token lease }
  pure { lease with token := token }

/-- The checks of a lease token (`reference.py:292-302`); an empty one is not checked. -/
def checkLease (clk : Clock) (generation : Int) (callId : Text) (tool : Tool) (token : Text) :
    Local Unit :=
  if token.isEmpty then pure ()
  else
    ask fun s =>
      match s.leases.get? token with
      | none => .error (rejected .staleContext "action eligibility lease is missing")
      | some lease =>
          if lease.generation ≠ generation ∨ lease.callId ≠ callId then
            .error (rejected .fenced "action eligibility lease belongs to another worker")
          else if lease.expiresAt ≤ clk.millis then
            .error (rejected .staleContext "action eligibility lease has expired")
          else if lease.fingerprint ≠ tool.fingerprint then
            .error (rejected .conflict "action eligibility lease arguments do not match intent")
          else .ok ()

/-- `finish_tool` of a tool that is started (`reference.py:291-310`): the turn's epoch becomes the
    current one. -/
def recordResult (clk : Clock) (requestId callId : Text) (turn : Turn) (tool : Tool)
    (result : Json) (raw : Text) : Local Tool := do
  let evidence ← appendEvidence clk turn.taskId Role.tool.text raw
    (.obj [(Text.lit "request_id", .str requestId), (Text.lit "call_id", .str callId),
      (Text.lit "tool", .str tool.name)])
  let done : Tool :=
    { tool with
      status := .completed, result := some result, resultJson := some raw
      evidenceId := some evidence.id, created := false }
  modify fun s => { s with
    tools := s.tools.set (requestId, callId) done
    turns := s.turns.set requestId { turn with scopeEpoch := s.epochOf turn.taskId } }
  pure done

/-- `finish_tool` (`reference.py:282-311`). -/
def finishTool (clk : Clock) (requestId : Text) (generation : Int) (callId : Text) (result : Json)
    (token : Text) : Local Tool := do
  let turn ← pending requestId generation
  let tool ← knownTool requestId callId
  let raw ← ask fun _ => wire result
  if tool.status = .completed then
    if tool.resultJson ≠ some raw then
      raise (rejected .conflict "tool result was already recorded differently")
    else pure tool
  else do
    checkLease clk generation callId tool token
    recordResult clk requestId callId turn tool result raw

/-! ## Commit -/

/-- `reply["text"]`, where it is a text that is not blank. -/
def replyText? (reply : Json) : Option Text :=
  match reply with
  | .obj _ => spoken? (Autosave.field "text" reply)
  | _ => none

/-- The values a loop over a value runs through. -/
def iterate : Json → Except Failure (List Json)
  | .arr items => .ok items
  | .obj fields => .ok (fields.map fun f => .str f.1)
  | .str s => .ok (s.map fun r => .str [r])
  | _ => .error (.raised .type "object is not iterable")

/-- `reply.get("provenance") or []`. -/
def provenanceOf (reply : Json) : Json :=
  let value := Autosave.field "provenance" reply
  if truthy value then value else .arr []

/-- `int(p["evidence_id"])`. -/
def evidenceId? (py : Interpreter) (p : Json) : Option Int :=
  (p.get? (Text.lit "evidence_id")).bind fun value =>
    match value with
    | .int n => some n
    | .bool b => some (if b then 1 else 0)
    | value => py.int value

/-- One provenance reference (`reference.py:331-339`). -/
def checkProvenance (py : Interpreter) (taskId : Int) (db : Db) (p : Json) :
    Except Failure Unit :=
  if !isObject p || !(isText "supports" (Autosave.field "kind" p) || isText "contradicts" (Autosave.field "kind" p))
  then .error (rejected .invalid "invalid provenance reference")
  else
    match (evidenceId? py p).map fun id => TaskMemory.message id db with
    | some (.ok m) =>
        if m.taskId ≠ taskId then
          .error (rejected .staleContext "provenance evidence is outside the task")
        else .ok ()
    | _ => .error (rejected .staleContext "provenance evidence is unavailable")

def checkAllProvenance (py : Interpreter) (taskId : Int) (db : Db) : List Json → Except Failure Unit
  | [] => .ok ()
  | p :: rest => do
      checkProvenance py taskId db p
      checkAllProvenance py taskId db rest

/-- A scoped turn that changes the snapshot names support (`reference.py:326-330`). -/
def checkSupports (turn : Turn) (snapshot provenance : Json) : Local Unit :=
  let changed := !equal snapshot .null && !equal snapshot turn.package.snapshot
  if turn.package.consistency = Text.lit "scope" ∧ changed = true then do
    let edges ← ask fun _ => iterate provenance
    ensure (edges.any fun p => isObject p && isText "supports" (Autosave.field "kind" p))
      (rejected .provenanceRequired "scoped snapshot writes need supports provenance")
  else pure ()

/-- What `commit` does before it appends the reply (`reference.py:313-339`): the turn, the task and
    the text. -/
def checkCommit (py : Interpreter) (requestId : Text) (generation : Int) (reply : Json) :
    Local (Turn × TaskRow × Text) := do
  let turn ← pending requestId generation
  let text ← ask fun _ => match replyText? reply with
    | none => .error (rejected .invalid "final reply must be nonempty text")
    | some text => .ok text
  let task ← asking (TaskMemory.findTask turn.taskId)
  ensure (task.revision == turn.taskRevision)
    (rejected .conflict "task snapshot changed during execution")
  require (fun s => !s.tools.entries.any fun t =>
      t.2.requestId == requestId && t.2.status == .started)
    (rejected .indeterminateTool "tool intent has no confirmed result")
  checkSupports turn (Autosave.field "snapshot" reply) (provenanceOf reply)
  let edges ← ask fun _ => iterate (provenanceOf reply)
  asking fun db => checkAllProvenance py turn.taskId db edges
  pure (turn, task, text)

/-- The snapshot of a reply (`reference.py:342-350`). -/
def writeSnapshot (clk : Clock) (taskId revision : Int) (snapshot : Json) : Local Unit :=
  if equal snapshot .null then pure ()
  else do
    ensure (isObject snapshot) (rejected .invalid "snapshot must be an object")
    invalidating do
      let _ ← onMemory (TaskMemory.setSnapshot clk taskId snapshot revision)
      pure ()

/-- `commit` (`reference.py:313-352`). -/
def commit (py : Interpreter) (clk : Clock) (requestId : Text) (generation : Int) (reply : Json) :
    Local Turn := do
  let (turn, task, text) ← checkCommit py requestId generation reply
  let _ ← appendEvidence clk turn.taskId Role.assistant.text text
    (.obj [(Text.lit "request_id", .str requestId)])
  writeSnapshot clk turn.taskId task.revision (Autosave.field "snapshot" reply)
  let done := { turn with status := .committed, reply := some reply, created := false }
  storeTurn requestId done
  pure done

/-- `abort` (`reference.py:354-357`). -/
def abort (requestId : Text) (generation : Int) : Local Unit := do
  let turn ← pending requestId generation
  storeTurn requestId { turn with status := .aborted }

/-! ## Operations -/

/-- A call of an adapter method. `tool` and `run` call others around a callback. -/
inductive AdapterOp where
  | createTask (title : Text) (snapshot : Option Json)
  | appendEvidence (taskId : Int) (role content : Text) (source : Json)
  | begin (a : BeginArgs)
  | inspect (requestId : Text)
  | recover (requestId : Text) (expectedGeneration : Int)
  | checkpointModelRequest (requestId : Text) (generation : Int) (callId : Text) (payload : Json)
      (units : Int)
  | recordModelResponse (requestId : Text) (generation : Int) (callId : Text) (response : Json)
  | modelCalls (requestId : Text)
  | startTool (requestId : Text) (generation : Int) (callId name : Text) (arguments : Json)
  | actionEligible (requestId : Text) (generation : Int) (callId : Text) (ttlMs : Int)
  | finishTool (requestId : Text) (generation : Int) (callId : Text) (result : Json) (token : Text)
  | commit (requestId : Text) (generation : Int) (reply : Json)
  | abort (requestId : Text) (generation : Int)

def AdapterOp.run (py : Interpreter) (clk : Clock) : AdapterOp → Local Unit
  | .createTask title snapshot => quietly (Conformance.createTask py.toHost clk title snapshot)
  | .appendEvidence taskId role content source =>
      quietly (Conformance.appendEvidence clk taskId role content source)
  | .begin a => quietly (Conformance.begin py.toHost clk a)
  | .inspect requestId => quietly (Conformance.inspect requestId)
  | .recover requestId generation => quietly (Conformance.recover requestId generation)
  | .checkpointModelRequest requestId generation callId payload units =>
      quietly (Conformance.checkpointModelRequest requestId generation callId payload units)
  | .recordModelResponse requestId generation callId response =>
      Conformance.recordModelResponse requestId generation callId response
  | .modelCalls requestId => quietly (Conformance.modelCalls requestId)
  | .startTool requestId generation callId name arguments =>
      quietly (Conformance.startTool py.toHost requestId generation callId name arguments)
  | .actionEligible requestId generation callId ttlMs =>
      quietly (Conformance.actionEligible py.toHost clk requestId generation callId ttlMs)
  | .finishTool requestId generation callId result token =>
      quietly (Conformance.finishTool clk requestId generation callId result token)
  | .commit requestId generation reply =>
      quietly (Conformance.commit py clk requestId generation reply)
  | .abort requestId generation => Conformance.abort requestId generation

/-- The adapter after a call, which may have raised. -/
def LocalAdapter.next (py : Interpreter) (s : LocalAdapter) (call : Clock × AdapterOp) :
    LocalAdapter :=
  (call.2.run py call.1 s).2

/-- The adapter after calls. -/
def LocalAdapter.after (py : Interpreter) (s : LocalAdapter) (calls : List (Clock × AdapterOp)) :
    LocalAdapter :=
  calls.foldl (LocalAdapter.next py) s

end Cmpath.Conformance
