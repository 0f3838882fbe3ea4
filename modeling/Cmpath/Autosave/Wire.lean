import Cmpath.Autosave.Redaction
import Cmpath.Lib.Dumps

/-!
# Wire transcripts

The reader of `wire.jsonl` files of `src/cmpath/autosave.py`: the events of a line, their texts,
and the messages that events next to each other make (`iter_wire_coalesced`). A file is given as
what `json.loads` makes of its lines; a line it cannot read ends the file.
-/

namespace Cmpath
open Lib

namespace Autosave

/-- What the program is given beside a `Host`: the hexadecimal SHA-1 of the UTF-8 form of a text,
    and `str` of a list or a dict. -/
structure Python extends Host where
  sha1 : Text → Text
  str : Json → Text

/-- `bool(value)`. -/
def truthy : Json → Bool
  | .null => false
  | .bool b => b
  | .int n => n != 0
  | .num spelling => spelling != "0.0".toList && spelling != "-0.0".toList
  | .str s => !s.isEmpty
  | .arr items => !items.isEmpty
  | .obj fields => !fields.isEmpty

/-- `str(value)`. -/
def str (py : Python) : Json → Text
  | .null => Text.lit "None"
  | .bool true => Text.lit "True"
  | .bool false => Text.lit "False"
  | .int n => Text.ofInt n
  | .num spelling => spelling.map .char
  | .str s => s
  | j => py.str j

mutual

/-- `a == b` of two values: a boolean is a number, an integer equals the float of its value, and
    the order of the fields of a dict does not count. -/
def equal : Json → Json → Bool
  | .null, .null => true
  | .bool a, .bool b => a == b
  | .bool a, .int n | .int n, .bool a => n == if a then 1 else 0
  | .bool a, .num s | .num s, .bool a => s == if a then "1.0".toList else "0.0".toList
  | .int m, .int n => m == n
  | .int n, .num s | .num s, .int n => s.map Rune.char == Text.ofInt n ++ Text.lit ".0"
  | .num a, .num b => a == b
  | .str a, .str b => a == b
  | .arr a, .arr b => equalItems a b
  | .obj a, .obj b => a.length == b.length && equalFields a b
  | _, _ => false

def equalItems : List Json → List Json → Bool
  | [], [] => true
  | x :: xs, y :: ys => equal x y && equalItems xs ys
  | _, _ => false

def equalFields : List (Text × Json) → List (Text × Json) → Bool
  | [], _ => true
  | (k, x) :: rest, other =>
      (match other.find? fun f => f.1 == k with
        | some f => equal x f.2
        | none => false) && equalFields rest other

end

mutual

/-- `_compact_json` (`autosave.py:188-193`): `json.dumps(value, ensure_ascii=False)`. -/
def compactJson : Json → Text
  | .arr items => Text.lit "[" ++ compactItems items
  | .obj fields => Text.lit "\x7b" ++ compactFields fields
  | .num spelling =>
      if spelling == "inf".toList then Text.lit "Infinity"
      else if spelling == "-inf".toList then Text.lit "-Infinity"
      else if spelling == "nan".toList then Text.lit "NaN" else spelling.map .char
  | j => j.dumps

def compactItems : List Json → Text
  | [] => Text.lit "]"
  | [x] => compactJson x ++ Text.lit "]"
  | x :: y :: rest => compactJson x ++ Text.lit ", " ++ compactItems (y :: rest)

def compactFields : List (Text × Json) → Text
  | [] => Text.lit "\x7d"
  | [(k, x)] => Json.pyQuote k ++ Text.lit ": " ++ compactJson x ++ Text.lit "\x7d"
  | (k, x) :: f :: rest =>
      Json.pyQuote k ++ Text.lit ": " ++ compactJson x ++ Text.lit ", " ++ compactFields (f :: rest)

end

/-- `value.get(key)`. -/
def field (key : String) (value : Json) : Json := (value.get? (Text.lit key)).getD .null

def isObject : Json → Bool
  | .obj _ => true
  | _ => false

/-- A string with something beside white space. -/
def spoken? : Json → Option Text
  | .str s => if s.strip.isEmpty then none else some s
  | _ => none

/-- A nonempty string. -/
def callId? (inner : Json) : Option Text :=
  match field "toolCallId" inner with
  | .str s => if s.isEmpty then none else some s
  | _ => none

/-- `_TOOL_DETAIL_KEYS` (`autosave.py:182-183`). -/
def toolDetailKeys : List String :=
  ["command", "path", "file_path", "pattern", "query", "url", "prompt"]

/-- The first of the detail keys that has a text, with its text. -/
def toolDetail? (args : Json) : Option (String × Text) :=
  toolDetailKeys.findSome? fun key => (spoken? (field key args)).map fun value => (key, value)

/-- `"\n".join(lines) + "\n\n"`. -/
def paragraph (lines : List Text) : Text := Text.join (Text.lit "\n") lines ++ Text.lit "\n\n"

def callIdLine (inner : Json) : List Text :=
  ((callId? inner).map fun id => Text.lit "toolCallId: " ++ id).toList

/-- The lines of the arguments of a call. -/
def argsLines : Json → List Text
  | .obj fields =>
      let detail := toolDetail? (.obj fields)
      let rest := fields.filter fun f => detail.all fun d => f.1 != Text.lit d.1
      (detail.map fun d => Text.lit d.1 ++ Text.lit ": " ++ d.2).toList ++
        if rest.isEmpty then [] else [Text.lit "args: " ++ compactJson (.obj rest)]
  | .null => []
  | .str [] => []
  | args => [Text.lit "args: " ++ compactJson args]

/-- `_tool_call_text` (`autosave.py:196-215`). -/
def toolCallText (py : Python) (inner : Json) : Text :=
  let name := field "name" inner
  let header := Text.lit "tool call: " ++ if truthy name then str py name else Text.lit "?"
  paragraph (header :: callIdLine inner ++ argsLines (field "args" inner))

/-- The lines of the result of a call. -/
def resultLines : Json → List Text
  | .obj fields =>
      match field "output" (.obj fields) with
      | .str output => if output.strip.isEmpty then [] else [Text.lit "output:", output]
      | .null => []
      | output => [Text.lit "output: " ++ compactJson output]
  | .null => []
  | result => [Text.lit "result: " ++ compactJson result]

/-- `_tool_result_text` (`autosave.py:218-239`). -/
def toolResultText (inner : Json) : Text :=
  let result := field "result" inner
  let isError := match field "isError" result with
    | .bool b => b
    | _ => false
  let header := Text.lit (if isError then "tool result: error" else "tool result")
  let note := ((spoken? (field "note" inner)).map fun note => Text.lit "note: " ++ note).toList
  paragraph (header :: callIdLine inner ++ note ++ resultLines result)

/-! ## Events -/

/-- The message a fragment belongs to. -/
inductive GroupKey where
  | step (turnId stepUuid : Json)
  | event (line : Nat)
  | prompt (line : Nat)
  | tool (callId : Text)
  | toolLine (line : Nat)

def GroupKey.same : GroupKey → GroupKey → Bool
  | step t s, step t' s' => equal t t' && equal s s'
  | event l, event l' | prompt l, prompt l' | toolLine l, toolLine l' => l == l'
  | tool c, tool c' => c == c'
  | _, _ => false

/-- One fragment of a message: what `iter_wire_events` yields. -/
structure Fragment where
  line : Nat
  role : Role
  text : Text
  key : GroupKey

/-- `_tool_key` (`autosave.py:242-247`). -/
def toolKey (inner : Json) (line : Nat) : GroupKey :=
  match callId? inner with
  | some id => .tool id
  | none => .toolLine line

/-- A value is the text of a literal. -/
def isText (s : String) : Json → Bool
  | .str t => t == Text.lit s
  | _ => false

/-- `_inner_items` (`autosave.py:250-270`). -/
def innerItems (py : Python) (inner : Json) (line : Nat) : List Fragment :=
  let kind := field "type" inner
  if isText "content.part" kind then
    let part := field "part" inner
    if !isText "text" (field "type" part) then []
    else
      match spoken? (field "text" part) with
      | none => []
      | some text =>
          let step := field "stepUuid" inner
          [⟨line, .assistant, text,
            if truthy step then .step (field "turnId" inner) step else .event line⟩]
  else if isText "tool.call" kind then
    [⟨line, .tool, toolCallText py inner, toolKey inner line⟩]
  else if isText "tool.result" kind then
    [⟨line, .tool, toolResultText inner, toolKey inner line⟩]
  else []

/-- The parts of a prompt; a number cannot be iterated over. -/
def promptParts? : Json → Option (List Json)
  | .arr items => some items
  | .str _ | .obj _ | .null => some []
  | value => if truthy value then none else some []

/-- The text blocks of a prompt. -/
def promptBlocks (parts : List Json) : List Text :=
  parts.filterMap fun part =>
    if isText "text" (field "type" part) then spoken? (field "text" part) else none

/-- `_wire_items` (`autosave.py:273-290`); nothing where it raises. -/
def wireItems? (py : Python) (event : Json) (line : Nat) : Option (List Fragment) :=
  let kind := field "type" event
  if isText "turn.prompt" kind then
    (promptParts? (field "input" event)).map fun parts =>
      let blocks := promptBlocks parts
      if blocks.isEmpty then []
      else [⟨line, .user, Text.join (Text.lit "\n") blocks, .prompt line⟩]
  else if isText "context.append_loop_event" kind then
    some (innerItems py (field "event" event) line)
  else if isText "tool.call" kind || isText "tool.result" kind then some (innerItems py event line)
  else some []

/-- A line of the file as `json.loads` takes it: nothing but white space, a value, no JSON, JSON with
    an integer of more digits than `int` reads (a `ValueError` like the one before), or JSON nested
    too deeply for the interpreter (a `RecursionError`). -/
inductive Line where
  | blank
  | event (value : Json)
  | broken
  | huge
  | deep

/-- The fragments of the lines after `startLine`, up to the first line that `json.loads` raises a
    `ValueError` for, and the exception reading ends in. The number is that of the lines already
    passed. -/
def wireEventsFrom (py : Python) (startLine : Int) : Nat → List Line → List Fragment × Option Failure
  | _, [] => ([], none)
  | n, line :: rest =>
      if (n + 1 : Int) ≤ startLine then wireEventsFrom py startLine (n + 1) rest
      else
        match line with
        | .blank => wireEventsFrom py startLine (n + 1) rest
        | .broken | .huge => ([], none)
        | .deep => ([], some (.raised .recursion "maximum recursion depth exceeded"))
        | .event value =>
            match wireItems? py value (n + 1) with
            | none => ([], some (.raised .type "object is not iterable"))
            | some items =>
                let later := wireEventsFrom py startLine (n + 1) rest
                (items ++ later.1, later.2)

/-- `iter_wire_events` (`autosave.py:338-366`). -/
def wireEvents (py : Python) (startLine : Int) (lines : List Line) : List Fragment × Option Failure :=
  wireEventsFrom py startLine 0 lines

/-! ## Messages -/

/-- What `iter_wire_coalesced` yields, with the key its fragments share. -/
structure WireMessage where
  first : Nat
  last : Nat
  role : Role
  text : Text
  key : GroupKey

/-- A message of one fragment. -/
def Fragment.alone (f : Fragment) : WireMessage := ⟨f.line, f.line, f.role, f.text, f.key⟩

/-- A message with one more fragment. -/
def WireMessage.add (m : WireMessage) (f : Fragment) : WireMessage :=
  { m with text := m.text ++ f.text, last := f.line }

/-- The fragment belongs to the message. -/
def WireMessage.takes (m : WireMessage) (f : Fragment) : Bool := f.role == m.role && f.key.same m.key

/-- The loop of `iter_wire_coalesced` from a message not yet complete. -/
def coalesceFrom : WireMessage → List Fragment → List WireMessage
  | m, [] => [m]
  | m, f :: rest =>
      if m.takes f then coalesceFrom (m.add f) rest else m :: coalesceFrom f.alone rest

/-- Fragments next to each other as messages. -/
def coalesce : List Fragment → List WireMessage
  | [] => []
  | f :: rest => coalesceFrom f.alone rest

/-- `iter_wire_coalesced` (`autosave.py:369-406`), and the exception it ends in: then the message it
    was at is not yielded. -/
def wireCoalesced (py : Python) (startLine : Int) (lines : List Line) :
    List WireMessage × Option Failure :=
  let events := wireEvents py startLine lines
  (if events.2.isSome then (coalesce events.1).dropLast else coalesce events.1, events.2)

/-! ## What is stored of a message -/

/-- `MAX_MESSAGE_CHARS` (`autosave.py:103`). -/
def maxMessageChars : Nat := 4000

/-- `TOOL_MAX_CHARS` (`autosave.py:112`). -/
def toolMaxChars : Nat := 4000

/-- `content_hash` (`autosave.py:175-177`): the UTF-8 form has `?` for a lone surrogate. -/
def contentHash (py : Python) (text : Text) : Text :=
  (py.sha1 (text.map fun r => match r with
    | .char c => .char c
    | .stray _ => .char '?')).take 16

/-- What `_prepare_text` returns. -/
structure Prepared where
  content : Text
  digest : Text
  truncated : Bool

/-- `_prepare_text` (`autosave.py:447-463`). -/
def prepareText (py : Python) (text : Text) (limit : Nat) : Option Prepared :=
  let content := (redact py.toHost text).strip
  if content.isEmpty then none
  else
    let kept := content.take limit
    some ⟨kept, contentHash py kept, decide (limit < content.length)⟩

/-- The limit of a role (`autosave.py:802`). -/
def limitOf (role : Role) : Nat := if role = .tool then toolMaxChars else maxMessageChars

/-- A message of a file as it is stored. -/
def WireMessage.prepared (py : Python) (m : WireMessage) : Option Prepared :=
  prepareText py m.text (limitOf m.role)

end Autosave

end Cmpath
