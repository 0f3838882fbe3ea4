import Mathlib.Data.List.Basic
import Mathlib.Tactic.Common

/-!
# The text of SQL scripts

A lexer of SQL that reads one byte at a time: all that it keeps of what is before is a `Mode`. The
doubled quote of a literal needs none of its own, since it ends the literal and begins it again.
`settle` is a script with its line endings as line feeds, but for those in literals; two dialects
settle a script alike exactly when they find the same carriage returns in literals
(`settle_eq_iff`).
-/

namespace Lib.SqlText

abbrev Bytes := List UInt8

/-- The bytes of a text of ASCII characters. -/
def bytes (s : String) : Bytes := s.toList.map fun c => UInt8.ofNat c.toNat

def lf : UInt8 := 10

def cr : UInt8 := 13

def quote : UInt8 := 39

def dash : UInt8 := 45

def slash : UInt8 := 47

def asterisk : UInt8 := 42

theorem ends_differ : cr ≠ lf := by decide

/-! ## Modes -/

/-- What quotes an identifier. -/
inductive Quoting where
  | double
  | back
  | bracket
  deriving DecidableEq, Repr

/-- The byte that ends the identifier. -/
def Quoting.close : Quoting → UInt8
  | .double => 34
  | .back => 96
  | .bracket => 93

/-- What a byte that quotes an identifier begins. -/
def quoting? (b : UInt8) : Option Quoting :=
  if b = 34 then some .double else if b = 96 then some .back else if b = 91 then some .bracket else none

/-- What is before a byte: in no token that hides another, with the first byte of a comment's marker
    or without, or in one. -/
inductive Mode where
  | plain
  | dashed
  | slashed
  | literal
  | line
  | block
  | starred
  | quoted (q : Quoting)
  deriving DecidableEq, Repr

def Mode.isQuoted : Mode → Bool
  | .quoted _ => true
  | _ => false

/-- How scripts are read: whether identifiers can be quoted, and whether a block comment may end with
    the star of the marker that begins it. -/
structure Dialect where
  identifiers : Bool
  early : Bool

namespace Dialect

/-- The mode after a byte that is not in a comment, a literal or a quoted identifier. -/
def start (d : Dialect) (b : UInt8) : Mode :=
  if b = quote then .literal
  else if b = dash then .dashed
  else if b = slash then .slashed
  else if d.identifiers then (quoting? b).elim .plain .quoted
  else .plain

def step (d : Dialect) : Mode → UInt8 → Mode
  | .plain, b => d.start b
  | .dashed, b => if b = dash then .line else d.start b
  | .slashed, b => if b = asterisk then (if d.early then .starred else .block) else d.start b
  | .literal, b => if b = quote then .plain else .literal
  | .line, b => if b = lf then .plain else .line
  | .block, b => if b = asterisk then .starred else .block
  | .starred, b => if b = slash then .plain else if b = asterisk then .starred else .block
  | .quoted q, b => if b = q.close then .plain else .quoted q

/-- The mode after a text. -/
def run (d : Dialect) (m : Mode) (s : Bytes) : Mode := s.foldl d.step m

@[simp] theorem run_nil (d : Dialect) (m : Mode) : d.run m [] = m := rfl

@[simp] theorem run_cons (d : Dialect) (m : Mode) (b : UInt8) (s : Bytes) :
    d.run m (b :: s) = d.run (d.step m b) s := rfl

end Dialect

/-- A property of what is before each place of a byte. -/
def AtEach (b : UInt8) (s : Bytes) (P : Bytes → Prop) : Prop :=
  ∀ before after, s = before ++ b :: after → P before

theorem atEach_nil (b : UInt8) (P : Bytes → Prop) : AtEach b [] P := by
  intro before after same
  exact absurd same (by simp)

theorem atEach_cons {b c : UInt8} {s : Bytes} {P : Bytes → Prop} :
    AtEach b (c :: s) P ↔ (c = b → P []) ∧ AtEach b s fun before => P (c :: before) := by
  constructor
  · intro h
    refine ⟨?_, fun before after same => h (c :: before) after (by rw [same]; rfl)⟩
    rintro rfl
    exact h [] s rfl
  · rintro ⟨here, later⟩ before after same
    cases before with
    | nil => exact here (List.cons.inj same).1
    | cons c' before =>
      obtain ⟨rfl, rest⟩ := List.cons.inj same
      exact later before after rest

instance decidableAtEach (b : UInt8) : ∀ (s : Bytes) (P : Bytes → Prop) [DecidablePred P],
    Decidable (AtEach b s P)
  | [], P, _ => isTrue (atEach_nil b P)
  | c :: s, P, _ =>
      have : Decidable (AtEach b s fun before => P (c :: before)) := decidableAtEach b s _
      decidable_of_iff _ atEach_cons.symm

/-! ## Line endings -/

/-- All line endings as line feeds. -/
def lfOnly : Bytes → Bytes
  | [] => []
  | b :: rest =>
      if b = cr then (if rest.head? = some lf then lfOnly rest else lf :: lfOnly rest)
      else b :: lfOnly rest

theorem lfOnly_cr (rest : Bytes) : lfOnly (cr :: rest) =
    if rest.head? = some lf then lfOnly rest else lf :: lfOnly rest := by
  rw [lfOnly, if_pos rfl]

theorem lfOnly_other {b : UInt8} {rest : Bytes} (h : b ≠ cr) : lfOnly (b :: rest) = b :: lfOnly rest := by
  rw [lfOnly, if_neg h]

theorem lfOnly_flat {s : Bytes} (flat : cr ∉ s) : lfOnly s = s := by
  induction s with
  | nil => rfl
  | cons b rest ih =>
    rw [List.mem_cons, not_or] at flat
    rw [lfOnly_other (Ne.symm flat.1), ih flat.2]

/-- The line endings outside literals as line feeds. -/
def settle (d : Dialect) : Mode → Bytes → Bytes
  | _, [] => []
  | m, b :: rest =>
      if b = cr ∧ m ≠ .literal then
        if rest.head? = some lf then settle d (d.step m b) rest else lf :: settle d (d.step m b) rest
      else b :: settle d (d.step m b) rest

/-- Every line feed as both. -/
def toCRLF (s : Bytes) : Bytes := s.flatMap fun b => if b = lf then [cr, lf] else [b]

/-- Every line feed as a carriage return. -/
def toCR (s : Bytes) : Bytes := s.map fun b => if b = lf then cr else b

section Settle

variable {d d' : Dialect} {m m' : Mode} {b : UInt8} {s rest : Bytes}

theorem settle_other (h : b ≠ cr) : settle d m (b :: rest) = b :: settle d (d.step m b) rest := by
  rw [settle, if_neg fun both => h both.1]

theorem settle_literal : settle d .literal (b :: rest) = b :: settle d (d.step .literal b) rest := by
  rw [settle, if_neg fun both => both.2 rfl]

theorem settle_cr (h : m ≠ .literal) : settle d m (cr :: rest) =
    if rest.head? = some lf then settle d (d.step m cr) rest else lf :: settle d (d.step m cr) rest := by
  rw [settle, if_pos ⟨rfl, h⟩]

theorem settle_lf : settle d m (lf :: rest) = lf :: settle d (d.step m lf) rest :=
  settle_other ends_differ.symm

/-- What is made of a carriage return outside literals begins with a line feed. -/
theorem settle_cr_head (d : Dialect) (rest : Bytes) (h : m ≠ .literal) : ∃ tail, settle d m (cr :: rest) = lf :: tail := by
  rw [settle_cr h]
  split
  · next more =>
    cases rest with
    | nil => exact absurd more (by simp)
    | cons c rest =>
      obtain rfl : c = lf := Option.some.inj more
      exact ⟨_, settle_lf⟩
  · exact ⟨_, rfl⟩

theorem settle_flat (flat : cr ∉ s) : settle d m s = s := by
  induction s generalizing m with
  | nil => rfl
  | cons b rest ih =>
    rw [List.mem_cons, not_or] at flat
    rw [settle_other (Ne.symm flat.1), ih flat.2]

/-- Two readings settle a script alike when they find the same carriage returns in literals. -/
theorem settle_eq_iff : settle d m s = settle d' m' s ↔
    AtEach cr s fun before => (d.run m before = .literal ↔ d'.run m' before = .literal) := by
  induction s generalizing m m' with
  | nil => exact ⟨fun _ => atEach_nil cr _, fun _ => rfl⟩
  | cons b rest ih =>
    rw [atEach_cons]
    simp only [Dialect.run_nil, Dialect.run_cons]
    rw [← ih]
    by_cases end_ : b = cr
    · subst end_
      by_cases inside : m = .literal
      · subst inside
        by_cases inside' : m' = .literal
        · subst inside'
          rw [settle_literal, settle_literal, List.cons_inj_right]
          simp
        · obtain ⟨tail, shape⟩ := settle_cr_head d' rest inside'
          rw [settle_literal, shape]
          simp [inside', ends_differ]
      · by_cases inside' : m' = .literal
        · subst inside'
          obtain ⟨tail, shape⟩ := settle_cr_head d rest inside
          rw [settle_literal, shape]
          simp [inside, ends_differ.symm]
        · rw [settle_cr inside, settle_cr inside']
          split <;> simp [inside, inside']
    · rw [settle_other end_, settle_other end_, List.cons_inj_right]
      simp [end_]

theorem start_end (d : Dialect) : d.start cr = .plain ∧ d.start lf = .plain := by
  rcases d with ⟨identifiers, early⟩
  cases identifiers <;> exact ⟨rfl, rfl⟩

/-- But for the end of a line comment, a carriage return is read as a line feed is. -/
theorem step_cr (d : Dialect) {m : Mode} (h : m ≠ .line) : d.step m cr = d.step m lf := by
  obtain ⟨start, start'⟩ := start_end d
  cases m with
  | plain => exact start.trans start'.symm
  | dashed => exact start.trans start'.symm
  | slashed => exact start.trans start'.symm
  | line => exact absurd rfl h
  | quoted q => cases q <;> rfl
  | literal => rfl
  | block => rfl
  | starred => rfl

/-- A carriage return before a line feed changes nothing of what follows. -/
theorem step_crlf (d : Dialect) (m : Mode) : d.step (d.step m cr) lf = d.step m lf := by
  obtain ⟨start, start'⟩ := start_end d
  have plain : d.step (d.start cr) lf = d.start lf := by
    rw [start, start']
    exact start'
  cases m with
  | plain => exact plain
  | dashed => exact plain
  | slashed => exact plain
  | quoted q => cases q <;> rfl
  | literal => rfl
  | line => rfl
  | block => rfl
  | starred => rfl

theorem toCRLF_cons : toCRLF (b :: s) = (if b = lf then [cr, lf] else [b]) ++ toCRLF s := rfl

/-- A script of line feeds comes back from its `\r\n` form when no line feed is in a literal. -/
theorem settle_crlf_iff (flat : cr ∉ s) :
    settle d m (toCRLF s) = s ↔ AtEach lf s fun before => d.run m before ≠ .literal := by
  induction s generalizing m with
  | nil => exact ⟨fun _ => atEach_nil lf _, fun _ => rfl⟩
  | cons b rest ih =>
    rw [List.mem_cons, not_or] at flat
    rw [atEach_cons, toCRLF_cons]
    simp only [Dialect.run_nil, Dialect.run_cons]
    by_cases end_ : b = lf
    · subst end_
      rw [if_pos rfl, List.cons_append, List.singleton_append]
      by_cases inside : m = .literal
      · subst inside
        rw [settle_literal]
        simp [ends_differ]
      · rw [settle_cr inside, if_pos (by rfl), settle_lf, step_crlf, List.cons_inj_right, ih flat.2]
        simp [inside]
    · rw [if_neg end_, List.singleton_append, settle_other (Ne.symm flat.1), List.cons_inj_right,
        ih flat.2]
      simp [end_]

theorem toCR_head (s : Bytes) : (toCR s).head? ≠ some lf := by
  cases s with
  | nil => simp [toCR]
  | cons b s =>
    show some (if b = lf then cr else b) ≠ some lf
    split
    · simp [ends_differ]
    · next other => simpa using other

/-- In the `\r` form a line comment goes on to the end of the script. -/
theorem step_toCR (d : Dialect) (m : Mode) : d.step m cr = d.step m lf ∨ d.step m cr = .line := by
  by_cases line : m = .line
  · subst line
    exact .inr rfl
  · exact .inl (step_cr d line)

/-- It comes back from its `\r` form too. -/
theorem settle_toCR (flat : cr ∉ s) (outside : AtEach lf s fun before => d.run m before ≠ .literal)
    (same : m' = m ∨ m' = .line) : settle d m' (toCR s) = s := by
  induction s generalizing m m' with
  | nil => rfl
  | cons b rest ih =>
    rw [List.mem_cons, not_or] at flat
    rw [atEach_cons] at outside
    show settle d m' ((if b = lf then cr else b) :: toCR rest) = b :: rest
    by_cases end_ : b = lf
    · subst end_
      have here : m' ≠ .literal := by
        rcases same with rfl | rfl
        · exact outside.1 rfl
        · decide
      rw [if_pos rfl, settle_cr here, if_neg (toCR_head rest), ih flat.2 outside.2]
      rcases same with rfl | rfl
      · exact step_toCR d m'
      · exact .inr rfl
    · rw [if_neg end_, settle_other (Ne.symm flat.1), ih flat.2 outside.2]
      rcases same with rfl | rfl
      · exact .inl rfl
      · exact .inr (by simp [Dialect.step, end_])

end Settle

end Lib.SqlText
