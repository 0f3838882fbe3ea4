import Cmpath.Engine.Task
import Cmpath.Lib.Substitution

/-!
# Redaction

`redact` (`src/cmpath/autosave.py:131-172`): fourteen substitutions, each over what the one before
put out. A rule keeps nothing of what it matches but `keyval`, which keeps the key and its
separator and cuts the value.
-/

namespace Cmpath
open Lib

namespace Autosave

/-! ## Classes of characters -/

/-- A character between two others. -/
def within (a b : Char) : Rune → Bool
  | .char c => a.toNat ≤ c.toNat && c.toNat ≤ b.toNat
  | .stray _ => false

def digit (r : Rune) : Bool := within '0' '9' r
def upper (r : Rune) : Bool := within 'A' 'Z' r
def lower (r : Rune) : Bool := within 'a' 'z' r

/-- `[A-Za-z0-9]`. -/
def alnum (r : Rune) : Bool := upper r || lower r || digit r

/-- One of the characters of a literal. -/
def among (s : String) (r : Rune) : Bool := (Text.lit s).contains r

/-- `\w` of a `str` pattern: beyond ASCII it is the letters and digits of Unicode. -/
def wordChar (host : Host) (r : Rune) : Bool :=
  alnum r || r == .char '_' || !within '\x00' '\x7f' r && host.isAlnum r

/-- What a character is compared as under `(?i)`: the ASCII letters have the Kelvin sign, the long
    s and the two Turkish letters as further cases. -/
def foldCase : Rune → Rune
  | .char c =>
      if upper (.char c) then .char (Char.ofNat (c.toNat + 32))
      else if c == '\u212A' then .char 'k' else if c == '\u017F' then .char 's'
      else if c == '\u0130' || c == '\u0131' then .char 'i' else .char c
  | .stray n => .stray n

/-- A literal under `(?i)`, given in lower case. -/
def anyCase (s : String) : Regex Rune := .chain ((Text.lit s).map fun c r => foldCase r == c)

/-- A class under `(?i)`. -/
def folded (p : Rune → Bool) (r : Rune) : Bool := p (foldCase r)

def plain (s : String) : Regex Rune := .literal (Text.lit s)

/-- `[ \t]`. -/
def gap (r : Rune) : Bool := among " \t" r

/-- `[A-Za-z0-9_]` under `(?i)`. -/
def keyChar (r : Rune) : Bool := folded (fun c => alnum c || among "_" c) r

/-! ## The rules -/

/-- The kinds of secrets, in the order of `_REDACTIONS`. -/
inductive Kind where
  | anthropic | openai | google | github | githubPat | huggingface | gitlab | slack | aws | jwt
  | bearer | keyval | privateKey | hex64
  deriving DecidableEq, Repr

/-- The name in the marker. -/
def Kind.name : Kind → String
  | .anthropic => "anthropic"
  | .openai => "openai"
  | .google => "google"
  | .github => "github"
  | .githubPat => "github_pat"
  | .huggingface => "huggingface"
  | .gitlab => "gitlab"
  | .slack => "slack"
  | .aws => "aws"
  | .jwt => "jwt"
  | .bearer => "bearer"
  | .keyval => "keyval"
  | .privateKey => "private_key"
  | .hex64 => "hex64"

/-- `[REDACTED:<kind>]`. -/
def marker (kind : Kind) : Text := Text.lit "[REDACTED:" ++ Text.lit kind.name ++ Text.lit "]"

/-- The pattern of a kind of token without the two `\b` around it. -/
def token : Kind → Regex Rune
  | .anthropic => .all [plain "sk-ant-", .many (fun r => alnum r || among "_-" r) 16]
  | .openai => .all [plain "sk-", .many (fun r => alnum r || among "_-" r) 16]
  | .google => .all [plain "AIza", .times (fun r => alnum r || among "_-" r) 35]
  | .github => .all [plain "gh", .cls (among "pousr"), plain "_", .many alnum 20]
  | .githubPat => .all [plain "github_pat_", .many (fun r => alnum r || among "_" r) 20]
  | .huggingface => .all [plain "hf_", .many alnum 20]
  | .gitlab => .all [plain "glpat-", .many (fun r => alnum r || among "_-" r) 16]
  | .slack => .all [plain "xox", .cls (among "baprs"), plain "-",
      .many (fun r => alnum r || among "-" r) 10]
  | .aws => .all [.alt (plain "AKIA") (plain "ASIA"), .times (fun r => digit r || upper r) 16]
  | .jwt => .all [plain "eyJ", .many (fun r => alnum r || among "_-" r) 10, plain ".",
      .many (fun r => alnum r || among "_-" r) 10, plain ".",
      .many (fun r => alnum r || among "_-" r) 5]
  | .hex64 => .times (fun r => digit r || within 'a' 'f' r || within 'A' 'F' r) 64
  | .bearer | .keyval | .privateKey => .cls fun _ => false

/-- A rule of the form `\b...\b`. -/
def tokenRule (host : Host) (kind : Kind) : Rule Rune where
  head := .eps
  body := .all [.bound (wordChar host), token kind, .bound (wordChar host)]
  mark := marker kind

/-- `(?i)\bbearer[ \t]+[A-Za-z0-9._~+/=-]{16,}`. -/
def bearerRule (host : Host) : Rule Rune where
  head := .eps
  body := .all [.bound (wordChar host), anyCase "bearer", .many gap 1,
    .many (folded fun r => alnum r || among "._~+/=-" r) 16]
  mark := marker .bearer

/-- The first group of `keyval`. -/
def keyName : Regex Rune :=
  .alt
    (.all [.many keyChar 0,
      .oneOf [.all [anyCase "api", .optional (among "_-"), anyCase "key"],
        .all [anyCase "access", .optional (among "_-"), anyCase "key"], anyCase "secret",
        anyCase "token", anyCase "password", anyCase "passwd", anyCase "credential"],
      .many keyChar 0])
    (.all [.many keyChar 0, anyCase "key", .many keyChar 0])

/-- The second group of `keyval`, `[ \t]*[:=][ \t]*`. -/
def separator : Regex Rune := .all [.many gap 0, .cls (among ":="), .many gap 0]

/-- A value in quotes that does not begin with a marker. -/
def quoted (quote : String) : Regex Rune :=
  .all [plain quote, .notNext (anyCase "[redacted:"), .many (fun r => !among quote r) 8,
    plain quote]

/-- The value of `keyval`. -/
def keyValue : Regex Rune :=
  .oneOf [quoted "\"", quoted "'", .many (fun r => !r.isStripped && !among "\"'" r) 8]

def keyvalRule (host : Host) : Rule Rune where
  head := .all [.bound (wordChar host), keyName, separator]
  body := keyValue
  mark := marker .keyval

/-- `-----BEGIN [A-Z ]*PRIVATE KEY-----` and the same with `END`. -/
def fence (word : String) : Regex Rune :=
  .all [plain ("-----" ++ word ++ " "), .many (fun r => upper r || among " " r) 0,
    plain "PRIVATE KEY-----"]

def privateKeyRule : Rule Rune where
  head := .eps
  body := .all [fence "BEGIN", .few (fun _ => true), fence "END"]
  mark := marker .privateKey

/-- The rule of a kind. -/
def rule (host : Host) : Kind → Rule Rune
  | .bearer => bearerRule host
  | .keyval => keyvalRule host
  | .privateKey => privateKeyRule
  | kind => tokenRule host kind

/-- `_REDACTIONS` (`autosave.py:131-153`): the kinds in order. -/
def redactions : List Kind :=
  [.anthropic, .openai, .google, .github, .githubPat, .huggingface, .gitlab, .slack, .aws, .jwt,
    .bearer, .keyval, .privateKey, .hex64]

/-- `redact` (`autosave.py:156-172`). -/
def redact (host : Host) (text : Text) : Text :=
  redactions.foldl (fun text kind => (rule host kind).sub text) text

end Autosave

end Cmpath
