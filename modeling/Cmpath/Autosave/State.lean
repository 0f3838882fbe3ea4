import Cmpath.Autosave.Wire
import Cmpath.Memory.Context
import Cmpath.Memory.Resolve

/-!
# Projects and their state

What `Autosave` (`src/cmpath/autosave.py:524-626`) keeps for a project: the task an alias names, and
the fact `autosave_state` of that task with the turns it saw, the digests of what it stored and a
cursor for each file.
-/

namespace Cmpath
open Lib Lib.Txn

namespace Autosave

/-- The arguments of `Autosave(...)` (`autosave.py:527-541`). -/
structure Config where
  write : Bool := true
  seenCap : Int := 500
  hashCap : Int := 1000
  cursorCap : Int := 200

/-- `l[-max(1, cap):]`. -/
def lastOf {α : Type} (cap : Int) (l : List α) : List α := l.drop (l.length - (max 1 cap).toNat)

/-! ## Paths -/

/-- A `pathlib` path: its parts after the root. -/
structure Path where
  absolute : Bool
  parts : List Text

/-- Parts with slashes between them. -/
def slashed (parts : List Text) : Text := Text.join (Text.lit "/") parts

/-- `str(path)`. -/
def Path.text (p : Path) : Text :=
  if p.absolute then Text.lit "/" ++ slashed p.parts
  else if p.parts.isEmpty then Text.lit "." else slashed p.parts

/-- The parts of a text between slashes. -/
def splitSlash : Text → List Text
  | [] => [[]]
  | r :: rest =>
      match splitSlash rest with
      | [] => [[r]]
      | part :: parts => if r == .char '/' then [] :: part :: parts else (r :: part) :: parts

/-- The components `posixpath.normpath` keeps, the last one first. -/
def normalParts (absolute : Bool) : List Text → List Text → List Text
  | kept, [] => kept
  | kept, part :: rest =>
      if part.isEmpty || part == Text.lit "." then normalParts absolute kept rest
      else if part != Text.lit ".." || (!absolute && kept.isEmpty) ||
          kept.head? == some (Text.lit "..") then normalParts absolute (part :: kept) rest
      else normalParts absolute kept.tail rest

/-- `_project_name` (`autosave.py:562-564`): the last component of the normal form. -/
def projectName : Option Text → Text
  | none | some [] => Text.lit "unknown"
  | some cwd =>
      let absolute := cwd.head? == some (.char '/')
      match normalParts absolute [] (splitSlash cwd) with
      | part :: _ => part
      | [] => if absolute then Text.lit "unknown" else Text.lit "."

/-- `re.fullmatch(r"wd_(.+)_[0-9a-f]{6,}", name)`: the group. -/
def workdirSlug? (name : Text) : Option Text :=
  let hex : Rune → Bool := fun r => digit r || within 'a' 'f' r
  let tail : Regex Rune := .seq (plain "_") (.many hex 6)
  ((plain "wd_").runs none name).findSome? fun start =>
    ((Regex.many (fun r => !among "\n" r) 1).runs none start.2).findSome? fun group =>
      if (tail.runs none group.2).any fun e => e.2.isEmpty then some group.1 else none

/-- The names of `path.parents` with the parts below each, the nearest first. -/
def parentsOf : List Text → List (Text × List Text)
  | [] => []
  | [_] => []
  | part :: below => parentsOf below ++ [(part, below)]

/-- `project_name_from_path` (`autosave.py:409-415`). -/
def projectNameFromPath (p : Path) : Option Text :=
  (parentsOf p.parts).findSome? fun parent => workdirSlug? parent.1

/-- `_cursor_key` (`autosave.py:901-910`). -/
def cursorKey (p : Path) : Text :=
  match (parentsOf p.parts).find? fun parent => (workdirSlug? parent.1).isSome with
  | some parent => slashed parent.2
  | none => p.text

/-! ## The project task -/

/-- `_project_task_by_name` (`autosave.py:566-577`); returns the task and whether it is new. -/
def projectTaskByName (py : Python) (clk : Clock) (create : Bool) (name : Text) :
    Tx (Option Int × Bool) := do
  let wanted := TaskMemory.phrase py.toHost (Text.lit "auto:" ++ name)
  let known ← read fun db => .ok ((TaskMemory.tasks db).find? fun t =>
    (db.aliasesOf t.id).any fun a => TaskMemory.phrase py.toHost a == wanted)
  match known with
  | some t => pure (some t.id, false)
  | none =>
      if create then do
        let id ← TaskMemory.createTask py.toHost clk (Text.lit "Autosave: " ++ name) []
          [Text.lit "auto:" ++ name] (.obj [])
        pure (some id, true)
      else pure (none, false)

/-! ## The state fact -/

/-- `STATE_KEY` (`autosave.py:115`). -/
def stateKey : Text := Text.lit "autosave_state"

/-- The dict `_state` returns. -/
structure State where
  seen : List Json
  hashes : List Json
  cursors : List (Text × Json)
  lastEvidence : Option Int

def State.empty : State := ⟨[], [], [], none⟩

/-- `list(value or [])`; a number that is not zero cannot be iterated over. -/
def listOf : Json → Except Failure (List Json)
  | .arr items => .ok items
  | .str s => .ok (s.map fun r => .str [r])
  | .obj fields => .ok (fields.map fun f => .str f.1)
  | value =>
      if truthy value then .error (TaskMemory.raising .type "object is not iterable") else .ok []

/-- `dict(value or {})`, for a dict and for what is falsy: no writer stores anything else. -/
def dictOf : Json → Except Failure (List (Text × Json))
  | .obj fields => .ok fields
  | value =>
      if truthy value then .error (TaskMemory.raising .type "object is not a dictionary")
      else .ok []

/-- `int(last) if isinstance(last, int) else None`. -/
def evidenceOf : Json → Option Int
  | .int n => some n
  | .bool b => some (if b then 1 else 0)
  | _ => none

/-- The value of the state fact as a state. -/
def State.ofJson (value : Json) : Except Failure State := do
  let seen ← listOf (field "seen" value)
  let hashes ← listOf (field "hashes" value)
  let cursors ← dictOf (field "cursors" value)
  .ok ⟨seen, hashes, cursors, evidenceOf (field "last_evidence" value)⟩

/-- `_state` (`autosave.py:581-595`). -/
def state (py : Python) : Option Int → Query State
  | none, _ => .ok .empty
  | some taskId, db => do
      let fact ← TaskMemory.fact py.toHost taskId stateKey none db
      State.ofJson ((fact.map (·.value)).getD .null)

/-- A text is in a list of values. -/
def listed (t : Text) (l : List Json) : Bool :=
  l.any fun j => match j with
    | .str s => s == t
    | _ => false

/-- What `_store_state` writes. -/
def State.payload (cfg : Config) (s : State) (evidenceId : Int) : Json :=
  .obj [(Text.lit "seen", .arr (lastOf cfg.seenCap s.seen)),
    (Text.lit "hashes", .arr (lastOf cfg.hashCap s.hashes)),
    (Text.lit "cursors", .obj (lastOf cfg.cursorCap s.cursors)),
    (Text.lit "last_evidence", .int evidenceId)]

/-- `_store_state` (`autosave.py:597-607`): nothing where there is no evidence to name. -/
def storeState (cfg : Config) (clk : Clock) (taskId : Int) (s : State) : Tx Unit :=
  match s.lastEvidence with
  | none => pure ()
  | some evidenceId =>
      TaskMemory.setFact clk taskId stateKey (s.payload cfg evidenceId) evidenceId false

/-- `_stored_wire_digests` (`autosave.py:466-480`). -/
def storedWireDigests (py : Python) (taskId : Option Int) (key : Text) (db : Db) : List Text :=
  match taskId with
  | none => []
  | some id =>
      (db.messages.filter fun m => m.taskId == id && isText "wire" (field "kind" m.source) &&
        match field "path" m.source with
        | .str path => path == key
        | _ => false).map fun m => contentHash py m.content

end Autosave

end Cmpath
