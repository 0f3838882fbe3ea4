import Cmpath.Engine.Resolve
import Cmpath.Memory.Task

/-!
# Addresses in TaskMemory

`TaskMemory.resolve` (`src/cmpath/memory.py:446-469`), the other resolver of the same file: explicit
identifiers are read from the query as it is, and titles and aliases only where there are none.
-/

namespace Cmpath
open Lib Lib.Txn

namespace TaskMemory

/-- A word character of Python's `\b`: `isAlnum` is `[^\W_]`. -/
def isWordRune (host : Host) (r : Rune) : Bool := host.isAlnum r || r == .char '_'

/-- `Resolution` (`memory.py:101-106`). -/
structure Resolution extends Cmpath.Resolution where
  reason : String

/-- `tuple(dict.fromkeys(l))`: first occurrences in order. -/
def fromKeys {α : Type} [DecidableEq α] (l : List α) : List α := l.reverse.dedup.reverse

theorem mem_fromKeys {α : Type} [DecidableEq α] {l : List α} {a : α} : a ∈ fromKeys l ↔ a ∈ l := by
  simp [fromKeys]

theorem nodup_fromKeys {α : Type} [DecidableEq α] (l : List α) : (fromKeys l).Nodup :=
  List.nodup_reverse.mpr (List.nodup_dedup _)

/-- The digits Python's `int` reads (`sys.int_info.default_max_str_digits`). -/
def maxStrDigits : Nat := 4300

/-- `tuple(dict.fromkeys(int(n) for n in re.findall(r"\bT([1-9][0-9]*)\b", query, re.I)))`. -/
def explicitTaskIds (host : Host) (query : Text) : Except Failure (List Int) :=
  let found := explicitIds (isWordRune host) query
  if found.any fun d => decide (maxStrDigits < d.length) then
    .error (.raised .value "Exceeds the limit (4300 digits) for integer string conversion")
  else .ok (fromKeys (found.map fun d => (decimal d : Int)))

/-- `tasks` (`memory.py:279-282`), the rows in order. -/
def tasks (db : Db) : List TaskRow := db.tasks.insertionSort fun a b => a.id ≤ b.id

/-- `" ".join(words(t))`. -/
def phrase (host : Host) (t : Text) : Text := Text.join (Text.lit " ") (words host t)

/-- The title or an alias of the task is a phrase of the query; aliases are compared as stored. -/
def speaks (host : Host) (query : Text) (db : Db) (t : TaskRow) : Bool :=
  (phrase host t.title :: db.aliasesOf t.id).any (spoken (phrase host query))

/-- `resolve` (`memory.py:446-469`). -/
def resolve (host : Host) (query : Text) : Query Resolution := fun db => do
  let explicit ← explicitTaskIds host query
  if explicit.any fun id => (db.task? id).isNone then
    .ok { status := .notFound, reason := "Unknown explicit task ID" }
  else
    let (found, reason) :=
      if explicit.isEmpty then
        (((tasks db).filter (speaks host query db)).map (·.id), "Whole title or registered alias")
      else (explicit, "Explicit task ID")
    .ok
      { conclude found with
        reason :=
          match (conclude found).status with
          | .resolved => reason
          | .ambiguous => "More than one task matches"
          | .notFound => "No explicit ID, title, or registered alias matched" }

end TaskMemory

end Cmpath
