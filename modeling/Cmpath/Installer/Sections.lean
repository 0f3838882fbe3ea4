import Cmpath.Lib.Lines

/-!
# Hook sections of a configuration

The editor of `scripts/install_autosave.py:35-124`: the marked region of a configuration, and the
sections outside it that run the managed script without a marker. A section is read from a header
that may be indented up to a line that begins with a bracket (`legacy_section_spans`); `legacyFlags`
says which lines belong to such a section when every header ends the one before. The two agree on a
text exactly when its blocks are `Tidy` (`strips_exactly_iff`).
-/

namespace Cmpath
open Lib

namespace Installer

/-! ## The editor -/

/-- `BEGIN`. -/
def beginMarker : Text := Text.lit "# >>> cmpath-autosave managed block >>>"

/-- `END`. -/
def endMarker : Text := Text.lit "# <<< cmpath-autosave managed block <<<"

/-- `MANAGED_SCRIPT`. -/
def managedScript : Text := Text.lit "autosave_session.py"

/-- `HOOK_HEADER_RE.match(line)`. -/
def isHookHeader (line : Text) : Bool :=
  (Text.lit "[[hooks]]").isPrefixOf (line.dropWhile Rune.isStripped)

/-- `line.startswith("[")`. -/
def startsTable (line : Text) : Bool := line.head? == some (.char '[')

/-- `not line.strip()`. -/
def isBlank (line : Text) : Bool := line.all Rune.isStripped

/-- `MANAGED_COMMAND_RE` from a place where a line begins: white space, `command`, white space, an
    equals sign, and the name of the script before the next line feed. -/
def commandAt (t : Text) : Bool :=
  let key := t.dropWhile Rune.isStripped
  (Text.lit "command").isPrefixOf key &&
    let sign := (key.drop 7).dropWhile Rune.isStripped
    (Text.lit "=").isPrefixOf sign &&
      Text.occurs managedScript ((sign.drop 1).takeWhile fun r => r != .char '\n')

/-- `MANAGED_COMMAND_RE.search(t)`: with `re.M` a line begins after a line feed. -/
def searchFrom : Bool → Text → Bool
  | begins, [] => begins && commandAt []
  | begins, r :: rest => begins && commandAt (r :: rest) || searchFrom (r == .char '\n') rest

def runsManaged (t : Text) : Bool := searchFrom true t

/-- `is_installed`. -/
def isInstalled (text : Text) : Bool := Text.occurs beginMarker text || Text.occurs endMarker text

/-- `marked_region`. -/
def markedRegion (text : Text) : Option (Nat × Nat) :=
  if !isInstalled text then none
  else
    (text.lines.findIdx? (Text.occurs beginMarker)).bind fun first =>
      ((text.lines.drop first).findIdx? (Text.occurs endMarker)).map fun last =>
        (first, first + last + 1)

/-- `index < region[1] and end > region[0]`. -/
def overlaps (region : Option (Nat × Nat)) (start stop : Nat) : Bool :=
  region.any fun r => start < r.2 && r.1 < stop

/-- The loop of `legacy_section_spans`; the first number counts the lines of a section that was just
    read, the second is that of the line. -/
def legacySpansFrom (region : Option (Nat × Nat)) : Nat → Nat → List Text → List (Nat × Nat)
  | _, _, [] => []
  | skip + 1, index, _ :: rest => legacySpansFrom region skip (index + 1) rest
  | 0, index, line :: rest =>
      if !isHookHeader line then legacySpansFrom region 0 (index + 1) rest
      else
        let body := rest.takeWhile fun l => !startsTable l
        let stop := index + 1 + (body.rdropWhile isBlank).length
        let later := legacySpansFrom region body.length (index + 1) rest
        if !overlaps region index (index + 1 + body.length) && runsManaged (line :: body).flatten then
          (index, stop) :: later
        else later

/-- `legacy_section_spans` (`install_autosave.py:89-115`). -/
def legacySectionSpans (text : Text) : List (Nat × Nat) :=
  legacySpansFrom (markedRegion text) 0 0 text.lines

/-- The line of a number is in `dropped`. -/
def isDropped (text : Text) (i : Nat) : Bool :=
  (legacySectionSpans text).any fun s => s.1 ≤ i && i < s.2

/-- `strip_legacy_sections` (`install_autosave.py:118-124`). -/
def stripLegacySections (text : Text) : Text :=
  if (legacySectionSpans text).isEmpty then text
  else ((text.lines.zipIdx.filter fun l => !isDropped text l.2).map Prod.fst).flatten

/-! ## What is a legacy section -/

/-- A table header, indented or not. -/
def isHeader (line : Text) : Bool := (line.dropWhile Rune.isStripped).head? == some (.char '[')

def isComment (line : Text) : Bool := (line.dropWhile Rune.isStripped).head? == some (.char '#')

/-- The quoted value of a line that sets `command`. -/
def commandValue? (line : Text) : Option Text :=
  let key := line.dropWhile Rune.isStripped
  let sign := (key.drop 7).dropWhile Rune.isStripped
  let value := (sign.drop 1).dropWhile Rune.isStripped
  if (Text.lit "command").isPrefixOf key && (Text.lit "=").isPrefixOf sign then
    match value with
    | .char '"' :: rest => some (rest.takeWhile fun r => r != .char '"')
    | .char '\'' :: rest => some (rest.takeWhile fun r => r != .char '\'')
    | _ => none
  else none

/-- The name of a file without its directories. -/
def baseName (path : Text) : Text := path.rtakeWhile fun r => r != .char '/'

/-- The line is a command with a word that names the managed script itself. -/
def runsScript (line : Text) : Bool :=
  (commandValue? line).any fun value =>
    (Text.runs (fun r => !r.isStripped) value).any fun word => baseName word == managedScript

/-- A line, and whether it is in the marked region. -/
structure ConfigLine where
  text : Text
  marked : Bool

namespace ConfigLine

def opensHook (l : ConfigLine) : Bool := isHookHeader l.text

def opensTable (l : ConfigLine) : Bool := startsTable l.text

def isHeader (l : ConfigLine) : Bool := Installer.isHeader l.text

end ConfigLine

/-- The lines of a configuration. -/
def configLines (text : Text) : List ConfigLine :=
  text.lines.zipIdx.map fun l => ⟨l.1, (markedRegion text).any fun r => r.1 ≤ l.2 && l.2 < r.2⟩

/-- The lines at the end of a section that are not part of it: blank ones, and comments where another
    header follows. -/
def isLoose (followed : Bool) (l : ConfigLine) : Bool :=
  isBlank l.text || followed && isComment l.text

/-- A section that runs the managed script outside the marked region. -/
def isLegacy (followed : Bool) (section_ : List ConfigLine) : Bool :=
  section_.any (fun l => runsScript l.text) &&
    (section_.rdropWhile (isLoose followed)).all fun l => !l.marked

/-- How many lines of a section go. -/
def goes (followed : Bool) (section_ : List ConfigLine) : Nat :=
  if isLegacy followed section_ then (section_.rdropWhile (isLoose followed)).length else 0

/-- For each line whether it belongs to a legacy section: a hook section goes from its header to the
    next one. -/
def legacyFlags (text : Text) : List Bool :=
  chop ConfigLine.opensHook ConfigLine.isHeader (fun _ => [false])
    (fun followed section_ => firstOf (goes followed section_) section_.length) false (configLines text)

/-- The lines that are not flagged. -/
def keptLines (lines : List Text) (flags : List Bool) : Text :=
  (((lines.zip flags).filter fun l => !l.2).map Prod.fst).flatten

/-- The editor drops the lines of the legacy sections and no other. -/
def StripsExactly (text : Text) : Prop :=
  (List.range text.lines.length).map (isDropped text) = legacyFlags text ∧
    stripLegacySections text = keptLines text.lines (legacyFlags text)

end Installer

end Cmpath
