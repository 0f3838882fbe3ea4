import Cmpath.Autosave.State

/-!
# Capture

The two calls that store what a session said: `save_turn` and `ingest_transcript`
(`src/cmpath/autosave.py:640-848`). Each finds its task, reads the state fact and decides what to store
before it opens its batch, so a call is a plan made from one database and a commit made on another.
-/

namespace Cmpath
open Lib Lib.Txn

namespace Autosave

/-! ## A turn -/

/-- A turn id: `str | int`. -/
inductive TurnId where
  | int (n : Int)
  | str (t : Text)
  deriving DecidableEq

/-- `str(turn_id)`. -/
def TurnId.text : TurnId → Text
  | int n => Text.ofInt n
  | str t => t

/-- The arguments of `save_turn`. -/
structure Turn where
  sessionId : Text
  cwd : Option Text
  prompt : Text
  turnId : Option TurnId := none
  extra : List (Text × Json) := []

/-- `key` (`autosave.py:656`). -/
def Turn.key (t : Turn) : Text :=
  (if t.sessionId.isEmpty then Text.lit "?" else t.sessionId) ++ Text.lit ":" ++
    (t.turnId.map TurnId.text).getD (Text.lit "?")

/-- `source` (`autosave.py:659-665`). -/
def Turn.source (t : Turn) (truncated : Bool) : Json :=
  let known := [(Text.lit "session", Json.str t.sessionId), (Text.lit "kind", .str (Text.lit "prompt"))]
    ++ ((t.turnId.map fun id => (Text.lit "turn", Json.str id.text)).toList)
    ++ if truncated then [(Text.lit "truncated", .bool true)] else []
  .obj (t.extra.foldl (fun fields f => Json.assign fields f.1 f.2) known)

/-- What `save_turn` returns. -/
inductive SaveTurn where
  | empty (taskId : Option Int)
  | duplicate (taskId : Option Int) (key : Text)
  | wouldSave (taskId : Option Int) (key : Text) (chars : Nat) (truncated : Bool)
  | saved (taskId : Int) (citation : Text) (chars : Nat) (truncated : Bool)

/-- What `save_turn` decides before it writes: its answer, or the task, the state it read and what
    it is about to store. -/
inductive TurnPlan where
  | answer (r : SaveTurn)
  | store (taskId : Int) (state : State) (prepared : Prepared)

/-- `save_turn` up to its batch (`autosave.py:652-668`). -/
def planTurn (py : Python) (cfg : Config) (t : Turn) (taskId : Option Int) : Query TurnPlan :=
  fun db => do
    let s ← state py taskId db
    match prepareText py t.prompt maxMessageChars with
    | none => .ok (.answer (.empty taskId))
    | some p =>
        if listed t.key s.seen || listed p.digest s.hashes then
          .ok (.answer (.duplicate taskId t.key))
        else
          match taskId with
          | some id =>
              if cfg.write then .ok (.store id s p)
              else .ok (.answer (.wouldSave (some id) t.key p.content.length p.truncated))
          | none => .ok (.answer (.wouldSave none t.key p.content.length p.truncated))

/-- The batch of `save_turn` (`autosave.py:675-683`). -/
def commitTurn (cfg : Config) (clk : Nat → Clock) (t : Turn) (taskId : Int) (s : State)
    (p : Prepared) : Tx SaveTurn := do
  let id ← TaskMemory.append (clk 0) taskId (Text.lit "user") p.content (t.source p.truncated)
  storeState cfg (clk 1) taskId
    { s with
      seen := lastOf cfg.seenCap (s.seen ++ [.str t.key])
      hashes := lastOf cfg.hashCap (s.hashes ++ [.str p.digest])
      lastEvidence := some id }
  pure (.saved taskId (citation taskId id) p.content.length p.truncated)

/-- `save_turn` (`autosave.py:640-683`): the project task is made in a batch of its own. -/
def saveTurn (py : Python) (cfg : Config) (clk : Nat → Clock) (t : Turn) (db : Db) :
    Except Failure SaveTurn × Db :=
  match atomic (projectTaskByName py (clk 2) cfg.write (projectName t.cwd)) db with
  | (.error e, db) => (.error e, db)
  | (.ok (taskId, _), db) =>
      match planTurn py cfg t taskId db with
      | .error e => (.error e, db)
      | .ok (.answer r) => (.ok r, db)
      | .ok (.store id s p) => atomic (commitTurn cfg clk t id s p) db

/-! ## A transcript -/

/-- `_PARSER_VERSION` (`autosave.py:117`). -/
def parserVersion : Int := 2

/-- The rows one pass appends at most (`autosave.py:809`). -/
def passCap : Nat := 500

/-- A file as one pass finds it: its lines, and what `_file_marker` tells of it. -/
structure WireFile where
  lines : List Line
  mtime : Json
  size : Int
  head : Text

/-- The arguments of `ingest_transcript`; `late n` when the deadline has passed before the n-th
    message is looked at. -/
structure Transcript where
  path : Path
  file : Option WireFile
  sessionId : Option Text := none
  cwd : Option Text := none
  late : Nat → Bool := fun _ => false
  rebuild : Bool := false

/-- `name` (`autosave.py:724-725`). -/
def Transcript.project (t : Transcript) : Text :=
  match t.cwd with
  | some (r :: rest) => projectName (some (r :: rest))
  | _ => (projectNameFromPath t.path).getD (Text.lit "unknown")

/-- What is read of a recorded cursor (`autosave.py:730-748`). -/
structure Entry where
  isDict : Bool := false
  start : Int := 0
  mtime : Json := .null
  size : Json := .null
  head : Json := .null
  complete : Bool := true
  parser : Json := .null

/-- `int(value)` of an integer; no writer stores anything else. -/
def lineOf : Option Json → Except Failure Int
  | none => .ok 0
  | some (.int n) => .ok n
  | some (.bool b) => .ok (if b then 1 else 0)
  | some _ => .error (TaskMemory.raising .type "int() argument must be a number")

def Entry.ofJson : Option Json → Except Failure Entry
  | some (.obj fields) => do
      let entry := Json.obj fields
      let start ← lineOf (entry.get? (Text.lit "line"))
      let modern := (entry.get? (Text.lit "size")).isSome && (entry.get? (Text.lit "head")).isSome
      .ok
        { isDict := true
          start := start
          mtime := field "mtime" entry
          size := field "size" entry
          head := field "head" entry
          complete := ((entry.get? (Text.lit "complete")).map truthy).getD !modern
          parser := field "parser" entry }
  | some (.int n) => .ok { start := n }
  | some (.bool b) => .ok { start := if b then 1 else 0 }
  | _ => .ok {}

def isNull : Json → Bool
  | .null => true
  | _ => false

/-- `marker_size > seen_size`, where one was recorded. -/
def longerThan (size : Int) : Json → Except Failure Bool
  | .null => .ok false
  | .int n => .ok (decide (n < size))
  | _ => .error (TaskMemory.raising .type "'>' not supported")

/-- Where a pass begins. -/
inductive Resume where
  | unchanged (start : Int)
  | scan (start : Int) (reset : Bool)

/-- The choice of the first line (`autosave.py:750-788`). -/
def resumeAt (rebuild : Bool) (e : Entry) (f : WireFile) : Except Failure Resume :=
  if rebuild then .ok (.scan 0 true)
  else if e.isDict && decide (0 < e.start) && !equal e.parser (.int parserVersion) then
    .ok (.scan 0 true)
  else if 0 < e.start then
    let untouched := !isNull e.mtime && equal e.mtime f.mtime &&
      (isNull e.size || equal e.size (.int f.size))
    if e.complete && untouched then .ok (.unchanged e.start)
    else do
      let longer ← longerThan f.size e.size
      let sameHead := !isNull e.head && equal e.head (.str f.head)
      if sameHead && (longer || untouched) then .ok (.scan e.start false)
      else .ok (.scan 0 true)
  else .ok (.scan e.start false)

/-- A row that is about to be stored. -/
structure Row where
  first : Nat
  last : Nat
  role : Role
  prepared : Prepared

/-- `line_ref` (`autosave.py:807`). -/
def Row.line (r : Row) : Json :=
  if r.first = r.last then .int r.first
  else .str (Text.ofNat r.first ++ Text.lit "-" ++ Text.ofNat r.last)

/-- What a pass has collected. -/
structure Scan where
  rows : List Row
  scannedTo : Int
  stoppedEarly : Bool

/-- One message of the file; nothing where it is not stored. -/
def WireMessage.row (py : Python) (known : Text → Bool) (m : WireMessage) : Option Row :=
  (m.prepared py).bind fun p => if known p.digest then none else some ⟨m.first, m.last, m.role, p⟩

/-- The loop over the messages (`autosave.py:797-812`). The number is that of the messages looked
    at; `raises` is the exception reading ends in after them. -/
def scan (py : Python) (known : Text → Bool) (late : Nat → Bool) (raises : Option Failure) :
    Nat → Scan → List WireMessage → Except Failure Scan
  | _, done, [] =>
      match raises with
      | some e => .error e
      | none => .ok done
  | n, done, m :: rest =>
      if late n then .ok { done with stoppedEarly := true }
      else
        match m.row py known with
        | none => scan py known late raises (n + 1) { done with scannedTo := m.last } rest
        | some row =>
            let next : Scan := { done with rows := done.rows ++ [row], scannedTo := m.last }
            if passCap ≤ next.rows.length then .ok { next with stoppedEarly := true }
            else scan py known late raises (n + 1) next rest

inductive IngestStatus where
  | missing | unchanged | wouldIngest | clean | ingested
  deriving DecidableEq

/-- What `ingest_transcript` returns. -/
structure IngestReport where
  status : IngestStatus
  taskId : Option Int := none
  path : Text
  scannedTo : Int := 0
  added : Nat := 0
  resetCursor : Bool := false
  preview : List (Json × Role × Nat) := []

/-- What a pass decides before it writes. -/
inductive PassPlan where
  | answer (r : IngestReport)
  | store (taskId : Int) (state : State) (file : WireFile) (start : Int) (reset : Bool)
      (scan : Scan)

/-- `ingest_transcript` up to its batch (`autosave.py:727-823`). -/
def planPass (py : Python) (cfg : Config) (t : Transcript) (f : WireFile) (taskId : Option Int) :
    Query PassPlan := fun db => do
  let s ← state py taskId db
  let entry ← Entry.ofJson ((Json.obj s.cursors).get? (cursorKey t.path))
  match ← resumeAt t.rebuild entry f with
  | .unchanged start =>
      .ok (.answer { status := .unchanged, taskId := taskId, path := t.path.text,
                     scannedTo := start })
  | .scan start reset => do
      let stored := if reset then storedWireDigests py taskId (cursorKey t.path) db else []
      let known := fun digest => listed digest s.hashes || stored.contains digest
      let messages := wireCoalesced py start f.lines
      let done ← scan py known t.late messages.2 0 ⟨[], start, false⟩ messages.1
      let report : IngestReport :=
        { status := .clean, taskId := taskId, path := t.path.text, scannedTo := done.scannedTo
          resetCursor := reset }
      let dry : IngestReport :=
        { report with
          status := if done.rows.isEmpty then .clean else .wouldIngest
          added := done.rows.length
          preview := (done.rows.take 5).map fun r => (r.line, r.role, r.prepared.content.length) }
      match taskId with
      | none => .ok (.answer dry)
      | some id =>
          if !cfg.write then .ok (.answer dry)
          else if done.rows.isEmpty && decide (done.scannedTo ≤ start) then .ok (.answer report)
          else .ok (.store id s f start reset done)

/-- `agent` (`autosave.py:826`). -/
def agentName (p : Path) : Text :=
  let name := (p.parts.dropLast.getLast?).getD []
  if name == Text.lit "agents" || name == Text.lit "." then Text.lit "main" else name

/-- `source` (`autosave.py:828-831`). -/
def Transcript.source (t : Transcript) (r : Row) : Json :=
  .obj ([(Text.lit "session", .str (t.sessionId.getD [])), (Text.lit "kind", .str (Text.lit "wire")),
      (Text.lit "path", .str (cursorKey t.path)), (Text.lit "line", r.line),
      (Text.lit "agent", .str (agentName t.path))]
    ++ if r.prepared.truncated then [(Text.lit "truncated", .bool true)] else [])

/-- The rows of a pass (`autosave.py:827-835`). -/
def appendRows (cfg : Config) (clk : Nat → Clock) (t : Transcript) (taskId : Int) :
    State → List Row → Tx State
  | s, [] => pure s
  | s, r :: rest => do
      let id ← TaskMemory.append (clk rest.length) taskId r.role.text r.prepared.content (t.source r)
      appendRows cfg clk t taskId
        { s with
          hashes := lastOf cfg.hashCap (s.hashes ++ [.str r.prepared.digest])
          lastEvidence := some id } rest

/-- The cursor a pass leaves (`autosave.py:837-842`). -/
def cursorOf (f : WireFile) (done : Scan) : Json :=
  .obj [(Text.lit "line", .int done.scannedTo), (Text.lit "mtime", f.mtime),
    (Text.lit "size", .int f.size), (Text.lit "head", .str f.head),
    (Text.lit "complete", .bool !done.stoppedEarly), (Text.lit "parser", .int parserVersion)]

/-- The batch of `ingest_transcript` (`autosave.py:824-847`). -/
def commitPass (cfg : Config) (clk : Nat → Clock) (t : Transcript) (taskId : Int) (s : State)
    (f : WireFile) (start : Int) (reset : Bool) (done : Scan) : Tx IngestReport := do
  let s ← appendRows cfg (fun n => clk (n + 2)) t taskId s done.rows
  let s := if start < done.scannedTo then
      { s with cursors := Json.assign s.cursors (cursorKey t.path) (cursorOf f done) }
    else s
  storeState cfg (clk 1) taskId s
  pure
    { status := if done.rows.isEmpty then .clean else .ingested
      taskId := some taskId
      path := t.path.text
      scannedTo := done.scannedTo
      added := done.rows.length
      resetCursor := reset }

/-- `ingest_transcript` (`autosave.py:685-847`). -/
def ingestTranscript (py : Python) (cfg : Config) (clk : Nat → Clock) (t : Transcript) (db : Db) :
    Except Failure IngestReport × Db :=
  match t.file with
  | none => (.ok { status := .missing, path := t.path.text }, db)
  | some f =>
      match atomic (projectTaskByName py (clk 0) cfg.write t.project) db with
      | (.error e, db) => (.error e, db)
      | (.ok (taskId, _), db) =>
          match planPass py cfg t f taskId db with
          | .error e => (.error e, db)
          | .ok (.answer r) => (.ok r, db)
          | .ok (.store id s f start reset done) =>
              atomic (commitPass cfg clk t id s f start reset done) db

end Autosave

end Cmpath
