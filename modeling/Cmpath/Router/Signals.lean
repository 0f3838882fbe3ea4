import Cmpath.Router.Route

/-!
# Signals

The patterns `src/cmpath/codex_memory.py:47-71` looks for in a prompt, with `re.search` and
`re.IGNORECASE`, and the normalization of a route a caller names.
-/

namespace Cmpath
open Lib Lib.Txn

namespace Router
open TaskMemory (check isWordRune)

/-! ## Patterns -/

/-- A letter of a pattern and a unit under `re.IGNORECASE`. Four letters outside ASCII fold to
    ASCII ones. -/
def sameLetter (letter : Char) : Rune → Bool
  | .char c =>
      c == letter || c == letter.toUpper ||
        (letter == 'i' && (c.toNat == 0x130 || c.toNat == 0x131)) ||
        (letter == 's' && c.toNat == 0x17F) || (letter == 'k' && c.toNat == 0x212A)
  | .stray _ => false

/-- A part of an alternative: a word, `\s+` or `\s*`. -/
inductive Piece where
  | word (w : String)
  | spaces
  | maySpaces

/-- The unit before the rest of a text, and the rest. -/
abbrev Place := Option Rune × Text

/-- Read the letters of a word. -/
def readWord : List Char → Place → Option Place
  | [], place => some place
  | letter :: rest, (_, r :: t) => if sameLetter letter r then readWord rest (some r, t) else none
  | _ :: _, (_, []) => none

/-- Skip white space. -/
def skipSpaces : Option Rune → Text → Place
  | before, [] => (before, [])
  | before, r :: t => if r.isStripped then skipSpaces (some r) t else (before, r :: t)

/-- Read an alternative. White space is never followed by more of it, so none is given back. -/
def readPieces : List Piece → Place → Option Place
  | [], place => some place
  | .word w :: rest, place => (readWord w.toList place).bind (readPieces rest)
  | .spaces :: rest, place =>
      if place.2.head?.any Rune.isStripped then readPieces rest (skipSpaces place.1 place.2)
      else none
  | .maySpaces :: rest, place => readPieces rest (skipSpaces place.1 place.2)

/-- `\b(?:…)` and, where it is closed, `\b`. -/
structure Pattern where
  alternatives : List (List Piece)
  closed : Bool := true

/-- `\b` between two units. -/
def boundary (isWord : Rune → Bool) (before next : Option Rune) : Bool :=
  before.any isWord != next.any isWord

/-- The pattern matches here. -/
def Pattern.matchesAt (p : Pattern) (isWord : Rune → Bool) (place : Place) : Bool :=
  boundary isWord place.1 place.2.head? && p.alternatives.any fun pieces =>
    (readPieces pieces place).any fun after =>
      !p.closed || boundary isWord after.1 after.2.head?

/-- `re.search` from a place on. -/
def Pattern.searchFrom (p : Pattern) (isWord : Rune → Bool) : Option Rune → Text → Bool
  | _, [] => false
  | before, r :: t => p.matchesAt isWord (before, r :: t) || p.searchFrom isWord (some r) t

/-- `bool(pattern.search(text))`. -/
def Pattern.search (p : Pattern) (host : Host) (text : Text) : Bool :=
  p.searchFrom (isWordRune host) none text

/-- `_RECALL_RE`. -/
def recallRe : Pattern where
  alternatives := [[.word "recall"], [.word "remember"], [.word "prior"], [.word "previous"],
    [.word "history"], [.word "what", .spaces, .word "did"], [.word "what", .spaces, .word "was"],
    [.word "look", .spaces, .word "up"]]

/-- `_CONTINUE_RE`. -/
def continueRe : Pattern where
  alternatives := [[.word "continue"], [.word "resume"], [.word "return", .spaces, .word "to"],
    [.word "pick", .spaces, .word "up"], [.word "carry", .spaces, .word "on"],
    [.word "follow", .spaces, .word "up"], [.word "again"]]

/-- `_LINEAGE_RE`. -/
def lineageRe : Pattern where
  alternatives := [[.word "lineage"], [.word "ancestor"], [.word "parent", .spaces, .word "task"],
    [.word "upstream"], [.word "related", .spaces, .word "task"], [.word "dependency"]]

/-- `_DEEP_RE`. -/
def deepRe : Pattern where
  alternatives := [[.word "deep"], [.word "all", .spaces, .word "task"],
    [.word "all", .spaces, .word "tasks"], [.word "every", .spaces, .word "task"],
    [.word "across", .spaces, .word "task"], [.word "across", .spaces, .word "tasks"],
    [.word "global", .spaces, .word "memory"], [.word "search", .spaces, .word "all"]]

/-- `_ADDRESS_RE`; white space after it is no condition. -/
def addressRe : Pattern where
  alternatives := ["task", "project", "thread", "work"].flatMap fun noun =>
    [[], [.word "id", .maySpaces], [.word "name", .maySpaces], [.word "title", .maySpaces]].flatMap
      fun part => [":", "=", "#", "is"].map fun sign =>
        [.word noun, .maySpaces] ++ part ++ [.word sign]
  closed := false

/-- `_signals` (`codex_memory.py:387-395`). -/
structure Signals where
  recalls : Bool
  continues : Bool
  lineage : Bool
  deep : Bool
  address : Bool

def signals (host : Host) (text : Text) : Signals where
  recalls := recallRe.search host text
  continues := continueRe.search host text
  lineage := lineageRe.search host text
  deep := deepRe.search host text
  address := addressRe.search host text

/-- `any(signals.values())`. -/
def Signals.any (s : Signals) : Bool := s.recalls || s.continues || s.lineage || s.deep || s.address

/-! ## Named routes -/

/-- `str.casefold` of a unit, where the result is ASCII. -/
def casefoldRune : Rune → Text
  | .char c =>
      if c.isUpper then [.char c.toLower]
      else
        match c.toNat with
        | 0xDF => Text.lit "ss"
        | 0x17F => Text.lit "s"
        | 0x1E9E => Text.lit "ss"
        | 0x212A => Text.lit "k"
        | 0xFB00 => Text.lit "ff"
        | 0xFB01 => Text.lit "fi"
        | 0xFB02 => Text.lit "fl"
        | 0xFB03 => Text.lit "ffi"
        | 0xFB04 => Text.lit "ffl"
        | 0xFB05 => Text.lit "st"
        | 0xFB06 => Text.lit "st"
        | _ => [.char c]
  | .stray n => [.stray n]

/-- `value.strip().casefold()`, as far as it is compared with ASCII names. -/
def folded (value : Text) : Text := value.strip.flatMap casefoldRune

/-- The routes by their names and aliases. -/
def namedRoutes : List (String × MemoryRoute) :=
  [("none", .none), ("pinned", .pinned), ("task", .task), ("lineage", .lineage), ("deep", .deep),
    ("all", .deep), ("full", .deep), ("related", .lineage)]

def routeNamed (name : Text) : Except Failure MemoryRoute :=
  match namedRoutes.find? fun r => Text.lit r.1 == name with
  | some r => .ok r.2
  | none =>
      .error (TaskMemory.raising .value "route must be one of none, pinned, task, lineage, or deep")

end Router

end Cmpath
