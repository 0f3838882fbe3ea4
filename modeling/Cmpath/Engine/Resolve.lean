import Mathlib.Data.List.Dedup
import Mathlib.Data.List.Infix
import Mathlib.Data.List.Sort
import Cmpath.Engine.Task

/-!
# Addresses

`Resolve` (`native/engine/engine.go:431-485`): the tasks a query names, by explicit identifiers
`T12` and by whole titles and aliases.
-/

namespace Cmpath
open Lib Lib.Txn

/-! ## Explicit identifiers -/

/-- A word character of Go's `\b`: an ASCII letter or digit, or an underscore. -/
def isAsciiWord : Rune → Bool
  | .char c => c.isAlphanum || c == '_'
  | .stray _ => false

/-- The digits of a run that is `T` and a number without leading zeros, in either case. -/
def idDigits? : Text → Option Text
  | .char t :: .char d :: rest =>
      if (t == 'T' || t == 't') && ('1' ≤ d && d ≤ '9') &&
          rest.all (fun | .char c => c.isDigit | .stray _ => false) then
        some (.char d :: rest)
      else none
  | _ => none

/-- The matches of `\bT([1-9][0-9]*)\b`. Letter and digits are word characters and there is none on
    either side, so a match is a whole run of them. -/
def explicitIds (isWord : Rune → Bool) (t : Text) : List Text :=
  (Text.runs isWord t).filterMap idDigits?

/-- The number that decimal digits spell. -/
def decimal (digits : Text) : Nat :=
  digits.foldl (fun n => fun
    | .char c => n * 10 + (c.toNat - 48)
    | .stray _ => n * 10) 0

/-! ## Whole phrases -/

/-- `strings.Contains(" "+hay+" ", " "+phrase+" ")` of a phrase that is not empty. -/
def spoken (hay phrase : Text) : Bool :=
  !phrase.isEmpty && decide (Text.lit " " ++ phrase ++ Text.lit " " <:+:
    Text.lit " " ++ hay ++ Text.lit " ")

/-- `SELECT id,title AS phrase FROM tasks UNION ALL SELECT task_id,alias FROM aliases`. -/
def Db.phrases (db : Db) : List (Int × Text) :=
  db.tasks.map (fun r => (r.id, r.title)) ++ db.aliases.map fun a => (a.taskId, a.aliasText)

/-- The tasks whose title or alias is a phrase of the query (`engine.go:459-471`). -/
def phraseMatches (host : Host) (query : Text) (db : Db) : List Int :=
  (db.phrases.filter fun p => spoken (normalize host query) (normalize host p.2)).map Prod.fst

/-! ## The verdict -/

inductive ResolutionStatus where
  | resolved
  | ambiguous
  | notFound
  deriving DecidableEq, Repr

/-- `Resolution` (`engine.go:431-435`); no task is the zero the wire leaves out. -/
structure Resolution where
  status : ResolutionStatus
  taskId : Option Int := none
  candidates : List Int := []
  deriving DecidableEq

/-- No candidate, one, or several. -/
def conclude : List Int → Resolution
  | [] => { status := .notFound }
  | [id] => { status := .resolved, taskId := some id, candidates := [id] }
  | found => { status := .ambiguous, candidates := found }

/-- An explicit identifier names a task (`engine.go:445-456`): it is in range and there is such a
    task. -/
def identifies (db : Db) (digits : Text) : Bool :=
  decide (decimal digits < 2 ^ 63) && (db.task? (decimal digits)).isSome

/-- `Resolve` (`engine.go:439-485`); `nfkc` is `norm.NFKC.String`. -/
def resolve (host : Host) (nfkc : Text → Text) (query : Text) : Query Resolution := fun db =>
  let explicit := explicitIds isAsciiWord (nfkc query)
  if explicit.all (identifies db) then
    let found := explicit.map (fun d => (decimal d : Int)) ++ phraseMatches host query db
    .ok (conclude (found.dedup.insertionSort (· ≤ ·)))
  else .ok { status := .notFound }

/-! ## Lists of candidates -/

theorem singleton_iff {α : Type} {l : List α} (nodup : l.Nodup) {a : α} :
    l = [a] ↔ ∀ b, b ∈ l ↔ b = a := by
  constructor
  · rintro rfl b
    exact List.mem_singleton
  · intro only
    cases l with
    | nil => exact absurd ((only a).mpr rfl) List.not_mem_nil
    | cons b rest =>
      have head : b = a := (only b).mp List.mem_cons_self
      have alone : rest = [] := by
        rw [List.eq_nil_iff_forall_not_mem]
        intro c member
        have same : c = a := (only c).mp (List.mem_cons_of_mem _ member)
        exact (List.nodup_cons.mp nodup).1 (by rwa [head, ← same])
      rw [head, alone]

theorem several_iff {α : Type} {l : List α} (nodup : l.Nodup) :
    (∃ a b rest, l = a :: b :: rest) ↔ ∃ a ∈ l, ∃ b ∈ l, a ≠ b := by
  constructor
  · rintro ⟨a, b, rest, rfl⟩
    refine ⟨a, List.mem_cons_self, b, List.mem_cons_of_mem _ List.mem_cons_self, ?_⟩
    rintro rfl
    exact (List.nodup_cons.mp nodup).1 List.mem_cons_self
  · rintro ⟨a, here, b, there, different⟩
    cases l with
    | nil => exact absurd here List.not_mem_nil
    | cons c rest =>
      cases rest with
      | nil =>
        have same : a = b := (List.mem_singleton.mp here).trans (List.mem_singleton.mp there).symm
        exact absurd same different
      | cons d rest => exact ⟨c, d, rest, rfl⟩

theorem conclude_resolved {l : List Int} {id : Int} :
    (conclude l).status = .resolved ∧ (conclude l).taskId = some id ↔ l = [id] := by
  unfold conclude
  split <;> simp_all

theorem conclude_ambiguous {l : List Int} :
    (conclude l).status = .ambiguous ↔ ∃ a b rest, l = a :: b :: rest := by
  unfold conclude
  split
  · simp
  · simp
  · rename_i many one
    cases l with
    | nil => exact absurd rfl many
    | cons a rest =>
      cases rest with
      | nil => exact absurd rfl (one a)
      | cons b rest => simp

theorem conclude_task {l : List Int} (h : (conclude l).status ≠ .resolved) :
    (conclude l).taskId = none := by
  unfold conclude at h ⊢
  split <;> simp_all

end Cmpath
