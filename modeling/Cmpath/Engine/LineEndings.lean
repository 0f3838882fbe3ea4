import Cmpath.Lib.SqlText
import Mathlib.Data.List.Induction

/-!
# The line endings of a schema

`lineEndingsToLF` of `native/engine/engine.go:510-592`, through which the embedded scripts go before
they are run. `lineEndingsToLF_eq` is what it computes: the scanner reads a script as one in which no
identifier is quoted and a block comment may end with the star of its opening marker (`scanner`).
-/

namespace Cmpath
open Lib Lib.SqlText

namespace LineEndings

/-! ## The code -/

/-- `strings.Index`. -/
def index (text : Bytes) : Bytes → Option Nat
  | [] => if text.isEmpty then some 0 else none
  | b :: rest => if text.isPrefixOf (b :: rest) then some 0 else (index text rest).map (· + 1)

/-- `strings.ReplaceAll` of a text that is not empty; the number counts the bytes of an occurrence
    that was just read. -/
def replaceFrom (old new : Bytes) : Nat → Bytes → Bytes
  | _, [] => []
  | skip + 1, _ :: rest => replaceFrom old new skip rest
  | 0, b :: rest =>
      if old.isPrefixOf (b :: rest) then new ++ replaceFrom old new (old.length - 1) rest
      else b :: replaceFrom old new 0 rest

def replaceAll (s old new : Bytes) : Bytes := replaceFrom old new 0 s

/-- `lfNewlines`. -/
def lfNewlines (text : Bytes) : Bytes :=
  if !text.contains cr then text else replaceAll (replaceAll text [cr, lf] [lf]) [cr] [lf]

/-- The bytes of a literal after its first. -/
def literalBody : Bytes → Nat
  | [] => 0
  | b :: rest =>
      if b ≠ quote then literalBody rest + 1
      else
        match rest with
        | [] => 1
        | c :: rest' => if c = quote then literalBody rest' + 2 else 1

/-- `literalEnd`. -/
def literalEnd (s : Bytes) : Nat := literalBody (s.drop 1) + 1

/-- `lineCommentEnd`. -/
def lineCommentEnd (s : Bytes) : Nat :=
  match index [lf] s with
  | some i => i + 1
  | none => s.length

/-- `blockCommentEnd`. -/
def blockCommentEnd (s : Bytes) : Nat :=
  match index [asterisk, slash] s with
  | some i => i + 2
  | none => s.length

/-- A literal or a comment begins here. -/
def isMarker (s : Bytes) : Bool :=
  s.head? == some quote || [dash, dash].isPrefixOf s || [slash, asterisk].isPrefixOf s

/-- The bytes of plain text after its first. -/
def plainBody : Bytes → Nat
  | [] => 0
  | b :: rest => if isMarker (b :: rest) then 0 else plainBody rest + 1

/-- The loop of `lineEndingsToLF`; the number counts the bytes of a piece that was just read. -/
def pieces : Nat → Bytes → Bytes
  | _, [] => []
  | skip + 1, _ :: rest => pieces skip rest
  | 0, b :: rest =>
      let s := b :: rest
      if b = quote then s.take (literalEnd s) ++ pieces (literalEnd s - 1) rest
      else if [dash, dash].isPrefixOf s then
        lfNewlines (s.take (lineCommentEnd s)) ++ pieces (lineCommentEnd s - 1) rest
      else if [slash, asterisk].isPrefixOf s then
        lfNewlines (s.take (blockCommentEnd s)) ++ pieces (blockCommentEnd s - 1) rest
      else lfNewlines (s.take (plainBody rest + 1)) ++ pieces (plainBody rest) rest

/-- `lineEndingsToLF`. -/
def lineEndingsToLF (s : Bytes) : Bytes := if !s.contains cr then s else pieces 0 s

/-! ## What it computes -/

/-- How the scanner reads a script. -/
def scanner : Dialect where
  identifiers := false
  early := true

/-- The marker of a comment is two bytes. -/
theorem marker_iff {a b c : UInt8} {rest : Bytes} :
    [a, b].isPrefixOf (c :: rest) = true ↔ c = a ∧ rest.head? = some b := by
  rw [List.isPrefixOf_iff_prefix, List.cons_prefix_cons, eq_comm]
  cases rest with
  | nil => simp
  | cons d rest => simp [eq_comm]

theorem isMarker_iff {b : UInt8} {rest : Bytes} : isMarker (b :: rest) = true ↔
    b = quote ∨ b = dash ∧ rest.head? = some dash ∨ b = slash ∧ rest.head? = some asterisk := by
  unfold isMarker
  rw [Bool.or_eq_true, Bool.or_eq_true, marker_iff, marker_iff, or_assoc]
  simp

theorem pieces_skip (n : Nat) (s : Bytes) : pieces n s = pieces 0 (s.drop n) := by
  induction s generalizing n with
  | nil => cases n <;> rfl
  | cons b rest ih =>
    cases n with
    | zero => rfl
    | succ n => exact ih n

theorem replaceFrom_flat {old new s : Bytes} (h : ∀ b ∈ s, old.head? ≠ some b) (some_ : old ≠ []) :
    replaceFrom old new 0 s = s := by
  induction s with
  | nil => rfl
  | cons b rest ih =>
    have missed : ¬ old.isPrefixOf (b :: rest) = true := by
      intro here
      cases old with
      | nil => exact some_ rfl
      | cons c old =>
        obtain ⟨rfl, _⟩ := List.cons_prefix_cons.mp (List.isPrefixOf_iff_prefix.mp here)
        exact h c List.mem_cons_self rfl
    unfold replaceFrom
    rw [if_neg missed, ih fun c member => h c (List.mem_cons_of_mem b member)]

/-- The two passes make one. -/
theorem replaceAll_both (s : Bytes) :
    replaceFrom [cr] [lf] 0 (replaceFrom [cr, lf] [lf] 0 s) = lfOnly s := by
  induction s with
  | nil => rfl
  | cons b rest ih =>
    by_cases end_ : b = cr
    · subst end_
      cases rest with
      | nil => rfl
      | cons c rest =>
        by_cases both : c = lf
        · subst both
          have pair : replaceFrom [cr, lf] [lf] 0 (cr :: lf :: rest) =
              lf :: replaceFrom [cr, lf] [lf] 0 rest := rfl
          have single : replaceFrom [cr, lf] [lf] 0 (lf :: rest) =
              lf :: replaceFrom [cr, lf] [lf] 0 rest := rfl
          rw [pair, ← single, ih, lfOnly_cr, if_pos (by rfl)]
        · have alone : replaceFrom [cr, lf] [lf] 0 (cr :: c :: rest) =
              cr :: replaceFrom [cr, lf] [lf] 0 (c :: rest) := by
            rw [replaceFrom, if_neg]
            intro here
            obtain ⟨-, pair⟩ := List.cons_prefix_cons.mp (List.isPrefixOf_iff_prefix.mp here)
            exact both (List.cons_prefix_cons.mp pair).1.symm
          have made : ∀ t, replaceFrom [cr] [lf] 0 (cr :: t) = lf :: replaceFrom [cr] [lf] 0 t :=
            fun _ => rfl
          rw [alone, made, ih, lfOnly_cr, if_neg (by simpa using both)]
    · have first : replaceFrom [cr, lf] [lf] 0 (b :: rest) = b :: replaceFrom [cr, lf] [lf] 0 rest := by
        rw [replaceFrom, if_neg]
        intro here
        exact end_ (List.cons_prefix_cons.mp (List.isPrefixOf_iff_prefix.mp here)).1.symm
      have second : ∀ t, replaceFrom [cr] [lf] 0 (b :: t) = b :: replaceFrom [cr] [lf] 0 t := by
        intro t
        rw [replaceFrom, if_neg]
        intro here
        exact end_ (List.cons_prefix_cons.mp (List.isPrefixOf_iff_prefix.mp here)).1.symm
      rw [first, second, ih, lfOnly_other end_]

theorem lfNewlines_eq (s : Bytes) : lfNewlines s = lfOnly s := by
  unfold lfNewlines replaceAll
  split
  · next flat =>
    exact (lfOnly_flat (by simpa using flat)).symm
  · exact replaceAll_both s

/-- The scanner goes on to the end of a piece. -/
def Reads (d : Dialect) (m : Mode) (s : Bytes) (k : Nat) : Prop :=
  settle d m s = lfOnly (s.take k) ++ settle d .plain (s.drop k)

theorem Reads.cons {d : Dialect} {m : Mode} {b : UInt8} {rest : Bytes} {k : Nat}
    (h : Reads d (d.step m b) rest k) (outside : m ≠ .literal)
    (whole : b = cr → rest.head? = some lf → 0 < k) : Reads d m (b :: rest) (k + 1) := by
  unfold Reads at h ⊢
  rw [List.take_succ_cons, List.drop_succ_cons]
  by_cases end_ : b = cr
  · subst end_
    have head : (rest.take k).head? = some lf ↔ rest.head? = some lf := by
      rw [List.head?_take]
      constructor
      · intro here
        split at here
        · exact absurd here (by simp)
        · exact here
      · intro here
        rw [if_neg (Nat.ne_of_gt (whole rfl here))]
        exact here
    rw [settle_cr outside, lfOnly_cr, h]
    by_cases more : rest.head? = some lf
    · rw [if_pos more, if_pos (head.mpr more)]
    · rw [if_neg more, if_neg fun here => more (head.mp here)]
      rfl
  · rw [settle_other end_, lfOnly_other end_, h]
    rfl

theorem lineCommentEnd_cons (b : UInt8) (rest : Bytes) :
    lineCommentEnd (b :: rest) = if b = lf then 1 else lineCommentEnd rest + 1 := by
  unfold lineCommentEnd
  rw [index]
  by_cases end_ : b = lf
  · subst end_
    rw [if_pos (by rfl), if_pos rfl]
  · have missed : ¬ [lf].isPrefixOf (b :: rest) = true := by
      intro here
      exact end_ (List.cons_prefix_cons.mp (List.isPrefixOf_iff_prefix.mp here)).1.symm
    rw [if_neg missed, if_neg end_]
    cases index [lf] rest <;> rfl

theorem blockCommentEnd_cons (b : UInt8) (rest : Bytes) : blockCommentEnd (b :: rest) =
    if [asterisk, slash].isPrefixOf (b :: rest) then 2 else blockCommentEnd rest + 1 := by
  unfold blockCommentEnd
  rw [index]
  by_cases here : [asterisk, slash].isPrefixOf (b :: rest) = true
  · rw [if_pos here, if_pos here]
  · rw [if_neg here, if_neg here]
    cases index [asterisk, slash] rest <;> rfl

theorem reads_literal (s : Bytes) : settle scanner .literal s =
    s.take (literalBody s) ++ settle scanner .plain (s.drop (literalBody s)) := by
  fun_induction literalBody s with
  | case1 => rfl
  | case2 b rest other ih =>
    have stay : scanner.step .literal b = .literal := by simp [Dialect.step, other]
    rw [settle_literal, stay, ih]
    rfl
  | case3 b other =>
    obtain rfl : b = quote := by simpa using other
    rfl
  | case4 b other rest ih =>
    obtain rfl : b = quote := by simpa using other
    have first : scanner.step .literal quote = .plain := by decide
    have second : scanner.step .plain quote = .literal := by decide
    rw [settle_literal, first, settle_other (by decide), second, ih]
    rfl
  | case5 b other c rest different =>
    obtain rfl : b = quote := by simpa using other
    rw [settle_literal]
    rfl

theorem reads_line (d : Dialect) (s : Bytes) : Reads d .line s (lineCommentEnd s) := by
  induction s with
  | nil => rfl
  | cons b rest ih =>
    rw [lineCommentEnd_cons]
    split
    · next end_ =>
      subst end_
      unfold Reads
      rw [settle_lf]
      rfl
    · next other =>
      have stay : d.step .line b = .line := by simp [Dialect.step, other]
      refine Reads.cons (by rw [stay]; exact ih) (by decide) fun _ more => ?_
      cases rest with
      | nil => exact absurd more (by simp)
      | cons c rest =>
        rw [lineCommentEnd_cons]
        split <;> omega

/-- In a block comment, and right after a star in it. -/
theorem reads_block (d : Dialect) (s : Bytes) : Reads d .block s (blockCommentEnd s) ∧
    Reads d .starred s (blockCommentEnd (asterisk :: s) - 1) := by
  induction s with
  | nil => exact ⟨rfl, rfl⟩
  | cons b rest ih =>
    have long : ∀ c t, 0 < blockCommentEnd (c :: t) := by
      intro c t
      rw [blockCommentEnd_cons]
      split <;> omega
    have whole : b = cr → rest.head? = some lf → 0 < blockCommentEnd rest := by
      intro _ more
      cases rest with
      | nil => exact absurd more (by simp)
      | cons c rest => exact long c rest
    -- after a star the comment goes on unless this byte is the slash
    have starred_ : Reads d .starred rest (blockCommentEnd (asterisk :: rest) - 1) →
        b = asterisk → Reads d .block (b :: rest) (blockCommentEnd (b :: rest)) ∧
          Reads d .starred (b :: rest) (blockCommentEnd (asterisk :: rest)) := by
      rintro later rfl
      have size : blockCommentEnd (asterisk :: rest) - 1 + 1 = blockCommentEnd (asterisk :: rest) :=
        Nat.sub_add_cancel (long asterisk rest)
      have block : d.step .block asterisk = .starred := rfl
      have starred : d.step .starred asterisk = .starred := rfl
      refine ⟨?_, ?_⟩
      · rw [← size]
        exact Reads.cons (by rw [block]; exact later) (by decide) fun same => absurd same (by decide)
      · rw [← size]
        exact Reads.cons (by rw [starred]; exact later) (by decide) fun same => absurd same (by decide)
    by_cases again : b = asterisk
    · obtain ⟨block, starred⟩ := starred_ ih.2 again
      refine ⟨block, ?_⟩
      subst again
      rw [blockCommentEnd_cons, if_neg (by simp [asterisk, slash]), Nat.add_sub_cancel]
      exact starred
    have missed : ¬ [asterisk, slash].isPrefixOf (b :: rest) = true := fun here => again (marker_iff.mp here).1
    have block : d.step .block b = .block := by simp [Dialect.step, again]
    refine ⟨?_, ?_⟩
    · rw [blockCommentEnd_cons, if_neg missed]
      exact Reads.cons (by rw [block]; exact ih.1) (by decide) whole
    by_cases closes : b = slash
    · subst closes
      rw [blockCommentEnd_cons, if_pos (by simp)]
      unfold Reads
      rw [settle_other (by decide)]
      rfl
    · have open_ : ¬ [asterisk, slash].isPrefixOf (asterisk :: b :: rest) = true := fun here =>
        closes (Option.some.inj (marker_iff.mp here).2)
      have starred : d.step .starred b = .block := by simp [Dialect.step, again, closes]
      rw [blockCommentEnd_cons, if_neg open_, Nat.add_sub_cancel, blockCommentEnd_cons, if_neg missed]
      exact Reads.cons (by rw [starred]; exact ih.1) (by decide) whole

/-- A mode outside comments and literals that the next byte does not make one. -/
def Loose (m : Mode) (s : Bytes) : Prop :=
  m = .plain ∨ m = .dashed ∧ s.head? ≠ some dash ∨ m = .slashed ∧ s.head? ≠ some asterisk

theorem Loose.outside {m : Mode} {s : Bytes} (h : Loose m s) : m ≠ .literal := by
  rcases h with rfl | ⟨rfl, -⟩ | ⟨rfl, -⟩ <;> decide

theorem Loose.step {m : Mode} {b : UInt8} {rest : Bytes} (h : Loose m (b :: rest)) (d : Dialect) :
    d.step m b = d.start b := by
  rcases h with rfl | ⟨rfl, other⟩ | ⟨rfl, other⟩
  · rfl
  · exact if_neg (by simpa using other)
  · exact if_neg (by simpa using other)

theorem Loose.restart {m : Mode} {s : Bytes} (h : Loose m s) (d : Dialect) :
    settle d m s = settle d .plain s := by
  cases s with
  | nil => rfl
  | cons b rest =>
    have plain : Loose .plain (b :: rest) := .inl rfl
    rw [settle, settle, h.step d, plain.step d]
    simp [h.outside]

/-- What a byte begins that begins no literal and no comment. -/
theorem loose_start {b : UInt8} {rest : Bytes} (h : isMarker (b :: rest) = false) :
    Loose (scanner.start b) rest := by
  rw [← Bool.not_eq_true, isMarker_iff] at h
  push Not at h
  obtain ⟨plain, line, block⟩ := h
  unfold Dialect.start
  rw [if_neg plain]
  split
  · next same => exact .inr (.inl ⟨rfl, line same⟩)
  split
  · next same => exact .inr (.inr ⟨rfl, block same⟩)
  · exact .inl rfl

/-- A line feed is plain text. -/
theorem plainBody_lf {b : UInt8} (rest : Bytes) : b = cr → rest.head? = some lf → 0 < plainBody rest := by
  intro _ more
  cases rest with
  | nil => exact absurd more (by simp)
  | cons c rest =>
    obtain rfl : c = lf := Option.some.inj more
    unfold plainBody
    rw [if_neg (by simp [isMarker_iff, lf, quote, dash, slash])]
    exact Nat.succ_pos _

theorem reads_plain {m : Mode} {s : Bytes} (h : Loose m s) : Reads scanner m s (plainBody s) := by
  induction s generalizing m with
  | nil => rfl
  | cons b rest ih =>
    unfold plainBody
    split
    · unfold Reads
      rw [h.restart]
      rfl
    · next plain =>
      have next_ := loose_start (by simpa using plain)
      exact Reads.cons (by rw [h.step]; exact ih next_) h.outside (plainBody_lf rest)

/-- The scanner settles a script as it reads it. -/
theorem pieces_eq (s : Bytes) : pieces 0 s = settle scanner .plain s := by
  have all : ∀ n, ∀ s : Bytes, s.length ≤ n → pieces 0 s = settle scanner .plain s := by
    intro n
    induction n with
    | zero =>
      intro s size
      rw [List.length_eq_zero_iff.mp (Nat.le_zero.mp size)]
      rfl
    | succ n ih =>
      intro s size
      cases s with
      | nil => rfl
      | cons b rest =>
        have small : ∀ k, (rest.drop k).length ≤ n := by
          intro k
          rw [List.length_drop]
          rw [List.length_cons] at size
          omega
        have piece : ∀ {m k}, Reads scanner m (b :: rest) (k + 1) → Loose m (b :: rest) →
            lfNewlines ((b :: rest).take (k + 1)) ++ pieces k rest = settle scanner .plain (b :: rest) := by
          intro m k reads loose
          rw [lfNewlines_eq, pieces_skip, ih _ (small k), ← loose.restart scanner, reads,
            List.drop_succ_cons]
        unfold pieces
        dsimp only
        split
        · next literal =>
          subst literal
          have opens : scanner.step .plain quote = .literal := by decide
          rw [settle_other (by decide), opens, reads_literal, ← ih _ (small _)]
          show quote :: rest.take (literalBody rest) ++ pieces (literalBody rest) rest = _
          rw [pieces_skip]
          rfl
        split
        · next line =>
          obtain ⟨rfl, second⟩ := marker_iff.mp line
          cases rest with
          | nil => exact absurd second (by simp)
          | cons c rest =>
            obtain rfl : c = dash := Option.some.inj second
            have size : lineCommentEnd (dash :: dash :: rest) = lineCommentEnd rest + 1 + 1 := by
              rw [lineCommentEnd_cons, lineCommentEnd_cons, if_neg (by decide), if_neg (by decide)]
            have reads : Reads scanner .plain (dash :: dash :: rest) (lineCommentEnd rest + 1 + 1) :=
              .cons (.cons (reads_line scanner rest) (by decide) fun same => absurd same (by decide)) (by decide)
                fun same => absurd same (by decide)
            rw [size]
            exact piece reads (.inl rfl)
        split
        · next block =>
          obtain ⟨rfl, second⟩ := marker_iff.mp block
          cases rest with
          | nil => exact absurd second (by simp)
          | cons c rest =>
            obtain rfl : c = asterisk := Option.some.inj second
            have long : 0 < blockCommentEnd (asterisk :: rest) := by
              rw [blockCommentEnd_cons]
              split <;> omega
            have size : blockCommentEnd (slash :: asterisk :: rest) = blockCommentEnd (asterisk :: rest) - 1 + 1 + 1 := by
              rw [blockCommentEnd_cons, if_neg (by simp [slash, asterisk]),
                Nat.sub_add_cancel long]
            have reads : Reads scanner .plain (slash :: asterisk :: rest)
                (blockCommentEnd (asterisk :: rest) - 1 + 1 + 1) :=
              .cons (.cons (reads_block scanner rest).2 (by decide) fun same => absurd same (by decide))
                (by decide) fun same => absurd same (by decide)
            rw [size]
            exact piece reads (.inl rfl)
        · next literal line block =>
          have marker : isMarker (b :: rest) = false := by
            rw [← Bool.not_eq_true, isMarker_iff, ← marker_iff, ← marker_iff]
            exact not_or.mpr ⟨literal, not_or.mpr ⟨line, block⟩⟩
          have plain : Loose .plain (b :: rest) := .inl rfl
          have reads : Reads scanner .plain (b :: rest) (plainBody rest + 1) :=
            .cons (reads_plain (loose_start marker)) (by decide) (plainBody_lf rest)
          exact piece reads plain
  exact all s.length s (Nat.le_refl _)

theorem lineEndingsToLF_eq (s : Bytes) : lineEndingsToLF s = settle scanner .plain s := by
  unfold lineEndingsToLF
  split
  · next flat => exact (settle_flat (by simpa using flat)).symm
  · exact pieces_eq s

/-! ## Schemas -/

/-- How SQLite reads a script. -/
def sqlite : Dialect where
  identifiers := true
  early := false

/-- Each apostrophe outside comments delimits a literal: none is in a quoted identifier, and none
    begins a literal that does not end. -/
def Delimited (s : Bytes) : Prop :=
  sqlite.run .plain s ≠ .literal ∧
    AtEach quote s fun before => (sqlite.run .plain before).isQuoted = false

/-- No literal has a line feed. -/
def FlatLiterals (d : Dialect) (s : Bytes) : Prop :=
  AtEach lf s fun before => d.run .plain before ≠ .literal

/-- Outside literals a carriage return stands before a line feed. -/
def PairedEnds (s : Bytes) : Prop :=
  ∀ before after, s = before ++ cr :: after → sqlite.run .plain before ≠ .literal →
    after.head? = some lf

/-- The line endings of a script of line feeds do not matter. -/
def EndingsIgnored (s : Bytes) : Prop :=
  cr ∉ s → Delimited s → FlatLiterals sqlite s →
    lineEndingsToLF (toCRLF s) = s ∧ lineEndingsToLF (toCR s) = s

/-- Literals are kept, and outside of them the line endings are line feeds. -/
def LiteralsKept (s : Bytes) : Prop :=
  Delimited s → PairedEnds s → lineEndingsToLF s = settle sqlite .plain s

/-- A script whose carriage returns and line feeds are in literals for the scanner where they are for
    SQLite. -/
def Aligned (s : Bytes) : Prop :=
  AtEach cr s fun before => (scanner.run .plain before = .literal ↔ sqlite.run .plain before = .literal)

theorem endingsIgnored_iff {s : Bytes} (flat : cr ∉ s) :
    lineEndingsToLF (toCRLF s) = s ∧ lineEndingsToLF (toCR s) = s ↔ FlatLiterals scanner s := by
  rw [lineEndingsToLF_eq, lineEndingsToLF_eq, settle_crlf_iff flat]
  constructor
  · exact fun h => h.1
  · exact fun outside => ⟨outside, settle_toCR flat outside (.inl rfl)⟩

/-- Where the scanner does what it is for. -/
theorem lineEndings_exact (s : Bytes) :
    EndingsIgnored s ∧ LiteralsKept s ↔
      (cr ∉ s → Delimited s → FlatLiterals sqlite s → FlatLiterals scanner s) ∧
        (Delimited s → PairedEnds s → Aligned s) := by
  unfold EndingsIgnored LiteralsKept Aligned
  rw [lineEndingsToLF_eq s, settle_eq_iff]
  constructor
  · rintro ⟨ignored, kept⟩
    exact ⟨fun flat clean literals => (endingsIgnored_iff flat).mp (ignored flat clean literals), kept⟩
  · rintro ⟨outside, aligned⟩
    exact ⟨fun flat clean literals => (endingsIgnored_iff flat).mpr (outside flat clean literals), aligned⟩

/-- A comment that begins with `/*/`, and an apostrophe in it. -/
def earlyScript : Bytes := bytes "/*/ it's */\nSELECT 1\n"

/-- The apostrophe is taken for the start of a literal. -/
theorem early_comment_splits : ¬ (EndingsIgnored earlyScript ∧ LiteralsKept earlyScript) := by
  have flat : cr ∉ earlyScript := by decide +kernel
  have ends : sqlite.run .plain earlyScript ≠ .literal := by decide +kernel
  have quotes : AtEach quote earlyScript fun before => (sqlite.run .plain before).isQuoted = false := by
    decide +kernel
  have literals : AtEach lf earlyScript fun before => sqlite.run .plain before ≠ .literal := by
    decide +kernel
  have left : lineEndingsToLF (toCRLF earlyScript) ≠ earlyScript := by decide +kernel
  rintro ⟨ignored, -⟩
  exact left (ignored flat ⟨ends, quotes⟩ literals).1

/-! ## Tame scripts -/

/-- No block comment begins with `/*/`, and no quoted identifier has the marker of a comment. -/
def Tame (s : Bytes) : Prop :=
  ∀ before b after, s = before ++ b :: after →
    (sqlite.run .plain before = .slashed → b = asterisk → after.head? ≠ some slash) ∧
      ((sqlite.run .plain before).isQuoted = true →
        (b = dash → after.head? ≠ some dash) ∧ (b = slash → after.head? ≠ some asterisk))

/-- How far the two readings of a script may be apart before a text. -/
inductive Apart (m m' : Mode) (after : Bytes) : Prop where
  | same (h : m' = m)
  | identifier (h : m.isQuoted = true) (loose : Loose m' after)
  | opened (h : m = .block) (h' : m' = .starred) (open_ : after.head? ≠ some slash)

theorem Apart.literal {m m' : Mode} {after : Bytes} (h : Apart m m' after) :
    m' = .literal ↔ m = .literal := by
  cases h with
  | same same => rw [same]
  | identifier quoted loose =>
    refine iff_of_false loose.outside ?_
    rintro rfl
    exact absurd quoted (by decide)
  | opened block starred => rw [block, starred]; decide

/-- The readings differ in what a byte begins only where it quotes an identifier. -/
theorem start_apart (b : UInt8) (after : Bytes) : Apart (sqlite.start b) (scanner.start b) after := by
  unfold Dialect.start
  split
  · exact .same rfl
  split
  · exact .same rfl
  split
  · exact .same rfl
  · cases quoting? b with
    | none => exact .same (by simp [sqlite, scanner])
    | some q => exact .identifier (by simp [sqlite, Mode.isQuoted]) (.inl (by simp [scanner]))

theorem close_plain (q : Quoting) : scanner.start q.close = .plain := by
  cases q <;> rfl

/-- A byte that is no apostrophe and begins no marker leaves the scanner in plain text. -/
theorem loose_inside {b : UInt8} {after : Bytes} (plain : b ≠ quote)
    (line : b = dash → after.head? ≠ some dash) (block : b = slash → after.head? ≠ some asterisk) :
    Loose (scanner.start b) after := by
  refine loose_start ?_
  rw [← Bool.not_eq_true, isMarker_iff]
  rintro (same | ⟨same, second⟩ | ⟨same, second⟩)
  · exact plain same
  · exact line same second
  · exact block same second

theorem step_apart {m m' : Mode} {b : UInt8} {after : Bytes} (h : Apart m m' (b :: after))
    (early : m = .slashed → b = asterisk → after.head? ≠ some slash)
    (marker : m.isQuoted = true → (b = dash → after.head? ≠ some dash) ∧ (b = slash → after.head? ≠ some asterisk))
    (plain : b = quote → m.isQuoted = false) :
    Apart (sqlite.step m b) (scanner.step m' b) after := by
  cases h with
  | same same =>
    subst same
    cases m' with
    | plain => exact start_apart b after
    | dashed =>
      show Apart (if b = dash then .line else sqlite.start b) (if b = dash then .line else scanner.start b)
        after
      split
      · exact .same rfl
      · exact start_apart b after
    | slashed =>
      show Apart (if b = asterisk then .block else sqlite.start b)
        (if b = asterisk then .starred else scanner.start b) after
      split
      · next same => exact .opened rfl rfl (early rfl same)
      · exact start_apart b after
    | literal => exact .same rfl
    | line => exact .same rfl
    | block => exact .same rfl
    | starred => exact .same rfl
    | quoted q => exact .same rfl
  | identifier quoted loose =>
    obtain ⟨q, rfl⟩ : ∃ q, m = .quoted q := by
      cases m with
      | quoted q => exact ⟨q, rfl⟩
      | _ => exact absurd quoted (by decide)
    rw [loose.step]
    show Apart (if b = q.close then .plain else .quoted q) (scanner.start b) after
    split
    · next closes =>
      subst closes
      exact .same (close_plain q)
    · refine .identifier rfl (loose_inside ?_ (marker rfl).1 (marker rfl).2)
      intro same
      cases plain same
  | opened block starred open_ =>
    subst block starred
    have other : b ≠ slash := by simpa using open_
    have goes : scanner.step .starred b = sqlite.step .block b := if_neg other
    exact .same goes

/-- On a tame script the scanner finds the literals where SQLite does. -/
theorem tame_modes {s : Bytes} (tame : Tame s) (clean : Delimited s) :
    ∀ before after, s = before ++ after →
      Apart (sqlite.run .plain before) (scanner.run .plain before) after := by
  intro before
  induction before using List.reverseRecOn with
  | nil => exact fun _ _ => .same rfl
  | append_singleton before b ih =>
    intro after whole
    rw [List.append_assoc, List.singleton_append] at whole
    obtain ⟨early, marker⟩ := tame before b after whole
    have reads : ∀ d : Dialect, d.run .plain (before ++ [b]) = d.step (d.run .plain before) b := by
      intro d
      simp [Dialect.run]
    rw [reads, reads]
    exact step_apart (ih (b :: after) whole) early marker fun same =>
      clean.2 before after (by rw [← same]; exact whole)

/-- There the line endings do not matter and the literals are kept. -/
theorem tame_settled {s : Bytes} (tame : Tame s) : EndingsIgnored s ∧ LiteralsKept s := by
  rw [lineEndings_exact]
  refine ⟨fun _ clean literals before after whole => ?_, fun clean _ before after whole => ?_⟩
  · have literal := (tame_modes tame clean before _ whole).literal
    exact fun inside => literals before after whole (literal.mp inside)
  · exact (tame_modes tame clean before _ whole).literal

end LineEndings

end Cmpath
