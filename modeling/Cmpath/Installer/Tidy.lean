import Cmpath.Installer.Sections

/-!
# Tidy configurations

Where the editor of `scripts/install_autosave.py:89-124` drops the lines it should. The editor reads
a configuration block by block (`dropped_flags`), a block being what stands between a header of a hook
and the next line that begins with a bracket; a block holds one section or, where headers are
indented, more. `TidyBlock` says of one block when the two readings agree on it (`tidy_block`), and
`strips_exactly_iff` that they agree on a text when they do on each block.
-/

namespace Cmpath
open Lib

namespace Installer

/-! ## Headers -/

theorem isHeader_of_hook {line : Text} (h : isHookHeader line = true) : isHeader line = true := by
  unfold isHookHeader at h
  obtain ⟨rest, same⟩ := List.isPrefixOf_iff_prefix.mp h
  unfold isHeader
  rw [← same]
  rfl

theorem isHeader_of_table {line : Text} (h : startsTable line = true) : isHeader line = true := by
  unfold startsTable at h
  cases line with
  | nil => exact absurd h (by decide)
  | cons r rest =>
    have first : r = .char '[' := by simpa using h
    subst first
    rfl

theorem not_blank_of_header {line : Text} (h : isHeader line = true) : isBlank line = false := by
  unfold isHeader at h
  cases blank : isBlank line with
  | false => rfl
  | true =>
    have all : ∀ r ∈ line, Rune.isStripped r = true := List.all_eq_true.mp blank
    rw [List.dropWhile_eq_nil_iff.mpr all] at h
    exact absurd h (by decide)

theorem ConfigLine.isHeader_of_hook {l : ConfigLine} (h : l.opensHook = true) : l.isHeader = true :=
  Installer.isHeader_of_hook h

theorem ConfigLine.isHeader_of_table {l : ConfigLine} (h : l.opensTable = true) : l.isHeader = true :=
  Installer.isHeader_of_table h

theorem ConfigLine.plain_of_inside {l : ConfigLine} (h : l.isHeader = false) : l.opensHook = false := by
  cases hook : l.opensHook with
  | false => rfl
  | true => rw [ConfigLine.isHeader_of_hook hook] at h; exact absurd h (by decide)

theorem not_loose_of_header {l : ConfigLine} (h : l.isHeader = true) (followed : Bool) :
    isLoose followed l = false := by
  unfold isLoose isComment
  rw [not_blank_of_header h]
  unfold ConfigLine.isHeader isHeader at h
  rw [beq_iff_eq.mp h]
  cases followed <;> rfl

/-! ## One block -/

/-- The editor takes the block for a section that runs the managed script. -/
def isManaged (block : List ConfigLine) : Bool :=
  block.all (fun l => !l.marked) && runsManaged (block.map ConfigLine.text).flatten

/-- The lines of a block up to the last that is not blank. -/
def trimmed (block : List ConfigLine) : List ConfigLine := block.rdropWhile fun l => isBlank l.text

/-- How many lines of a block the editor drops. -/
def dropped (block : List ConfigLine) : Nat := if isManaged block then (trimmed block).length else 0

/-- The sections of a block, of any kind, each with whether another header follows. -/
def sectionsOf (followed : Bool) (block : List ConfigLine) : List (Bool × List ConfigLine) :=
  chop ConfigLine.isHeader ConfigLine.isHeader (fun l => [(true, [l])])
    (fun followed section_ => [(followed, section_)]) followed block

/-- The section begins with a header of a hook. -/
def isHook (section_ : List ConfigLine) : Bool := section_.head?.any ConfigLine.opensHook

/-- The section is a hook that runs the managed script, and ends where `own` does. -/
structure TidySection (own : List ConfigLine) (s : Bool × List ConfigLine) : Prop where
  hook : isHook s.2 = true
  runs : s.2.any (fun l => runsScript l.text) = true
  ends : ∀ l ∈ own.getLast?, isLoose s.1 l = false

/-- Of a block that the editor drops, each section is a hook that runs the managed script and, but for
    the last, does not end with a blank line or a comment; the last does not end with a comment that
    precedes a header. A block that it keeps has no section to drop. -/
def TidyBlock (followed : Bool) (block : List ConfigLine) : Prop :=
  if isManaged block then
    (∀ s ∈ (sectionsOf followed block).dropLast, TidySection s.2 s) ∧
      ∀ s ∈ (sectionsOf followed block).getLast?, TidySection (trimmed s.2) s
  else ∀ s ∈ sectionsOf followed block, isHook s.2 = true → isLegacy s.1 s.2 = false

/-- How many lines of a section of any kind go. -/
def sectionGoes (s : Bool × List ConfigLine) : Nat := if isHook s.2 then goes s.1 s.2 else 0

def sectionFlags (s : Bool × List ConfigLine) : List Bool := firstOf (sectionGoes s) s.2.length

theorem goes_le (followed : Bool) (section_ : List ConfigLine) :
    goes followed section_ ≤ section_.length := by
  unfold goes
  split
  · exact (List.rdropWhile_prefix _ _).length_le
  · exact Nat.zero_le _

theorem sectionGoes_le (s : Bool × List ConfigLine) : sectionGoes s ≤ s.2.length := by
  unfold sectionGoes
  split
  · exact goes_le s.1 s.2
  · exact Nat.zero_le _

/-- Blank lines at the end of a section do not say what of it is loose. -/
theorem loose_trimmed (followed : Bool) (section_ : List ConfigLine) :
    (trimmed section_).rdropWhile (isLoose followed) = section_.rdropWhile (isLoose followed) := by
  unfold trimmed
  induction section_ using List.reverseRecOn with
  | nil => rfl
  | append_singleton section_ l ih =>
    rw [List.rdropWhile_concat, List.rdropWhile_concat]
    cases blank : isBlank l.text with
    | true =>
      have loose : isLoose followed l = true := by simp [isLoose, blank]
      rw [if_pos rfl, if_pos loose, ih]
    | false => rw [if_neg (by decide), List.rdropWhile_concat]

/-- All of a section goes, up to some blank lines at its end, exactly when it is tidy there. -/
theorem sectionGoes_iff {own : List ConfigLine} {s : Bool × List ConfigLine} (some_ : own ≠ [])
    (unmarked : ∀ l ∈ s.2, l.marked = false) (own_ : own = s.2 ∨ own = trimmed s.2) :
    sectionGoes s = own.length ↔ TidySection own s := by
  have loose : own.rdropWhile (isLoose s.1) = s.2.rdropWhile (isLoose s.1) := by
    rcases own_ with rfl | rfl
    · rfl
    · exact loose_trimmed s.1 s.2
  have long : 0 < own.length := List.length_pos_of_ne_nil some_
  have clean : ((s.2.rdropWhile (isLoose s.1)).all fun l => !l.marked) = true := by
    rw [List.all_eq_true]
    intro l member
    simp [unmarked l ((List.rdropWhile_prefix _ _).mem member)]
  have ends : (own.rdropWhile (isLoose s.1)).length = own.length ↔
      ∀ l ∈ own.getLast?, isLoose s.1 l = false := by
    have self : (own.rdropWhile (isLoose s.1)).length = own.length ↔
        own.rdropWhile (isLoose s.1) = own :=
      ⟨fun same => (List.rdropWhile_prefix _ _).eq_of_length same, fun same => by rw [same]⟩
    rw [self, List.rdropWhile_eq_self_iff, List.getLast?_eq_some_getLast some_]
    simp [some_]
  unfold sectionGoes goes isLegacy
  rw [clean, Bool.and_true, ← loose]
  constructor
  · intro h
    split at h
    · next hook =>
      split at h
      · next runs => exact ⟨hook, runs, ends.mp h⟩
      · omega
    · omega
  · rintro ⟨hook, runs, last⟩
    rw [if_pos hook, if_pos runs]
    exact ends.mpr last

/-- Nothing of a section goes exactly when it is no legacy section. -/
theorem sectionGoes_zero {s : Bool × List ConfigLine} (head : ∀ l ∈ s.2.head?, l.isHeader = true) :
    sectionGoes s = 0 ↔ (isHook s.2 = true → isLegacy s.1 s.2 = false) := by
  unfold sectionGoes goes
  constructor
  · intro h hook
    rw [if_pos hook] at h
    split at h
    · next legacy =>
      have none_ := List.rdropWhile_eq_nil_iff.mp (List.length_eq_zero_iff.mp h)
      obtain ⟨l, first⟩ : ∃ l, s.2.head? = some l := by
        cases at_ : s.2.head? with
        | none => simp [isHook, at_] at hook
        | some l => exact ⟨l, rfl⟩
      have loose := none_ l (List.mem_of_mem_head? first)
      rw [not_loose_of_header (head l first)] at loose
      exact absurd loose (by decide)
    · next fine => exact Bool.eq_false_iff.mpr fine
  · intro h
    split
    · next hook => rw [if_neg (by simp [h hook])]
    · rfl

/-! ## The sections of a block -/

/-- Elements that begin no block are read one by one. -/
theorem chop_singles {α β : Type} {starts stops : α → Bool} {single : α → List β}
    {block : Bool → List α → List β} {more : Bool} {xs : List α} (h : ∀ a ∈ xs, starts a = false)
    (rest : List α) : chop starts stops single block more (xs ++ rest) =
      xs.flatMap single ++ chop starts stops single block more rest := by
  induction xs with
  | nil => rfl
  | cons a xs ih =>
    rw [List.cons_append, chop_single (h a List.mem_cons_self),
      ih fun b member => h b (List.mem_cons_of_mem a member), List.flatMap_cons, List.append_assoc]

theorem firstOf_zero_flatMap (xs : List ConfigLine) :
    firstOf 0 xs.length = xs.flatMap fun _ => [false] := by
  induction xs with
  | nil => rfl
  | cons a xs ih =>
    rw [List.length_cons, Nat.add_comm, firstOf_zero_add, ih]
    rfl

/-- Flags of hook sections only, read section by section. -/
theorem flags_sections (followed : Bool) (lines : List ConfigLine) :
    chop ConfigLine.opensHook ConfigLine.isHeader (fun _ => [false])
      (fun followed section_ => firstOf (goes followed section_) section_.length) followed lines =
      (sectionsOf followed lines).flatMap sectionFlags := by
  refine chop_induction ConfigLine.isHeader ConfigLine.isHeader
    (P := fun lines => chop ConfigLine.opensHook ConfigLine.isHeader (fun _ => [false])
      (fun followed section_ => firstOf (goes followed section_) section_.length) followed lines =
      (sectionsOf followed lines).flatMap sectionFlags) rfl ?_ ?_ lines
  · intro a rest plain ih
    have none_ := ConfigLine.plain_of_inside plain
    rw [chop_single none_, ih]
    unfold sectionsOf
    rw [chop_single plain, List.flatMap_append]
    congr 1
    simp [sectionFlags, sectionGoes, isHook, none_, firstOf]
  · intro a body after header inside stop ih
    unfold sectionsOf at ih ⊢
    rw [chop_block header inside stop, List.flatMap_append, ← ih]
    cases hook : a.opensHook with
    | true =>
      rw [chop_block hook inside stop]
      congr 1
      simp [sectionFlags, sectionGoes, isHook, hook]
    | false =>
      have plain : ∀ b ∈ a :: body, b.opensHook = false := by
        intro b member
        rcases List.mem_cons.mp member with rfl | member
        · exact hook
        · exact ConfigLine.plain_of_inside (inside b member)
      rw [← List.cons_append, chop_singles plain]
      congr 1
      simp only [List.flatMap_cons, List.flatMap_nil, List.append_nil, sectionFlags, sectionGoes,
        isHook, List.head?_cons, Option.any_some, hook, Bool.false_eq_true, if_false]
      rw [firstOf_zero_flatMap]
      rfl

theorem sections_flatten (followed : Bool) (lines : List ConfigLine) :
    ((sectionsOf followed lines).map Prod.snd).flatten = lines := by
  refine chop_induction ConfigLine.isHeader ConfigLine.isHeader
    (P := fun lines => ((sectionsOf followed lines).map Prod.snd).flatten = lines) rfl ?_ ?_ lines
  · intro a rest plain ih
    unfold sectionsOf at ih ⊢
    rw [chop_single plain, List.map_append, List.flatten_append, ih]
    rfl
  · intro a body after header inside stop ih
    unfold sectionsOf at ih ⊢
    rw [chop_block header inside stop, List.map_append, List.flatten_append, ih]
    simp

theorem sections_head {followed : Bool} {lines : List ConfigLine}
    (first : Stopped ConfigLine.isHeader lines) :
    ∀ s ∈ sectionsOf followed lines, ∃ a body, s.2 = a :: body ∧ a.isHeader = true := by
  revert first
  refine chop_induction ConfigLine.isHeader ConfigLine.isHeader
    (P := fun lines => Stopped ConfigLine.isHeader lines →
      ∀ s ∈ sectionsOf followed lines, ∃ a body, s.2 = a :: body ∧ a.isHeader = true) ?_ ?_ ?_ lines
  · intro _ s member
    cases member
  · intro a rest plain _ first
    rw [first a rfl] at plain
    exact absurd plain (by decide)
  · intro a body after header inside stop ih _ s member
    unfold sectionsOf at member
    rw [chop_block header inside stop] at member
    rcases List.mem_append.mp member with here | later
    · rw [List.mem_singleton.mp here]
      exact ⟨a, body, rfl, header⟩
    · exact ih stop s later

/-- Flags of two counts agree section by section. -/
theorem sectionFlags_iff {k : Bool × List ConfigLine → Nat} (small : ∀ s, k s ≤ s.2.length)
    (sections : List (Bool × List ConfigLine)) :
    sections.flatMap sectionFlags = sections.flatMap (fun s => firstOf (k s) s.2.length) ↔
      ∀ s ∈ sections, sectionGoes s = k s := by
  induction sections with
  | nil => simp
  | cons s rest ih =>
    rw [List.flatMap_cons, List.flatMap_cons, List.forall_mem_cons, ← ih,
      ← firstOf_inj (sectionGoes_le s) (small s)]
    constructor
    · intro h
      exact List.append_inj h (by simp)
    · rintro ⟨here, later⟩
      rw [sectionFlags, here, later]

theorem firstOf_all (sections : List (Bool × List ConfigLine)) :
    firstOf (sections.map Prod.snd).flatten.length (sections.map Prod.snd).flatten.length =
      sections.flatMap fun s => firstOf s.2.length s.2.length := by
  induction sections with
  | nil => rfl
  | cons s rest ih =>
    rw [List.map_cons, List.flatten_cons, List.length_append, firstOf_add, ih, List.flatMap_cons]

theorem firstOf_none (sections : List (Bool × List ConfigLine)) :
    firstOf 0 (sections.map Prod.snd).flatten.length =
      sections.flatMap fun s => firstOf 0 s.2.length := by
  induction sections with
  | nil => rfl
  | cons s rest ih =>
    rw [List.map_cons, List.flatten_cons, List.length_append, firstOf_zero_add, ih, List.flatMap_cons]

theorem trimmed_append {xs ys : List ConfigLine} (some_ : trimmed ys ≠ []) :
    trimmed (xs ++ ys) = xs ++ trimmed ys := by
  unfold trimmed List.rdropWhile at some_ ⊢
  rw [List.reverse_append, List.dropWhile_append]
  rw [ne_eq, List.reverse_eq_nil_iff] at some_
  rw [if_neg (by simpa using some_), List.reverse_append, List.reverse_reverse]

theorem trimmed_head {a : ConfigLine} {body : List ConfigLine} (header : a.isHeader = true) :
    trimmed (a :: body) ≠ [] := by
  intro none_
  have blank := List.rdropWhile_eq_nil_iff.mp none_ a List.mem_cons_self
  rw [not_blank_of_header header] at blank
  exact absurd blank (by decide)

theorem trimmed_le (block : List ConfigLine) : (trimmed block).length ≤ block.length :=
  (List.rdropWhile_prefix _ _).length_le

/-- The two readings agree on a block exactly when it is tidy. -/
theorem tidy_block {followed : Bool} {a : ConfigLine} {body : List ConfigLine}
    (header : a.isHeader = true) :
    firstOf (dropped (a :: body)) (a :: body).length =
      chop ConfigLine.opensHook ConfigLine.isHeader (fun _ => [false])
        (fun followed section_ => firstOf (goes followed section_) section_.length) followed (a :: body) ↔
      TidyBlock followed (a :: body) := by
  have whole := sections_flatten followed (a :: body)
  have first : Stopped ConfigLine.isHeader (a :: body) := by
    intro b is
    cases is
    exact header
  have heads : ∀ s ∈ sectionsOf followed (a :: body), ∃ b rest, s.2 = b :: rest ∧ b.isHeader = true :=
    sections_head first
  rw [flags_sections, eq_comm]
  unfold TidyBlock dropped
  generalize sectionsOf followed (a :: body) = sections at whole heads ⊢
  split
  · next managed =>
    have unmarked : ∀ l ∈ a :: body, l.marked = false := by
      have both := managed
      unfold isManaged at both
      rw [Bool.and_eq_true] at both
      intro l member
      simpa using List.all_eq_true.mp both.1 l member
    have inside : ∀ s ∈ sections, ∀ l ∈ s.2, l.marked = false := by
      intro s member l line
      refine unmarked l ?_
      rw [← whole]
      exact List.mem_flatten.mpr ⟨s.2, List.mem_map_of_mem member, line⟩
    rcases List.eq_nil_or_concat sections with none_ | ⟨init, last, split_⟩
    · rw [none_] at whole
      cases whole
    rw [List.concat_eq_append] at split_
    subst split_
    obtain ⟨b, rest, shape, header'⟩ := heads last (by simp)
    have some_ : trimmed last.2 ≠ [] := by
      rw [shape]
      exact trimmed_head header'
    rw [List.map_append, List.flatten_append] at whole
    simp only [List.map_cons, List.map_nil, List.flatten_cons, List.flatten_nil, List.append_nil]
      at whole
    rw [← whole, trimmed_append some_, List.length_append, List.length_append, firstOf_add, firstOf_all,
      List.flatMap_append, List.dropLast_concat, List.getLast?_concat]
    have first := sectionFlags_iff (k := fun s => s.2.length) (fun _ => Nat.le_refl _) init
    have second := firstOf_inj (sectionGoes_le last) (trimmed_le last.2)
    have inner : (∀ s ∈ init, sectionGoes s = s.2.length) ↔ ∀ s ∈ init, TidySection s.2 s := by
      refine forall₂_congr fun s member => ?_
      obtain ⟨c, tail, shape', _⟩ := heads s (List.mem_append_left _ member)
      exact sectionGoes_iff (by simp [shape']) (inside s (List.mem_append_left _ member)) (.inl rfl)
    have outer : sectionGoes last = (trimmed last.2).length ↔ TidySection (trimmed last.2) last :=
      sectionGoes_iff some_ (inside last (by simp)) (.inr rfl)
    constructor
    · intro h
      obtain ⟨left, right⟩ := List.append_inj h (by simp [sectionFlags])
      refine ⟨inner.mp (first.mp left), fun s is => ?_⟩
      cases is
      exact outer.mp (second.mp (by simpa [sectionFlags] using right))
    · rintro ⟨left, right⟩
      rw [first.mpr (inner.mpr left)]
      congr 1
      simpa [sectionFlags] using second.mpr (outer.mpr (right last rfl))
  · rw [← whole, firstOf_none, sectionFlags_iff (k := fun _ => 0) (fun _ => Nat.zero_le _)]
    refine forall₂_congr fun s member => sectionGoes_zero fun l first => ?_
    obtain ⟨c, tail, shape, header'⟩ := heads s member
    rw [shape] at first
    cases first
    exact header'

/-! ## The spans -/

/-- The line of a number is in one of the spans. -/
def inSpans (spans : List (Nat × Nat)) (i : Nat) : Bool := spans.any fun s => s.1 ≤ i && i < s.2

/-- The lines from a number on, with whether they are in a region. -/
def linesAt (region : Option (Nat × Nat)) (index : Nat) (lines : List Text) : List ConfigLine :=
  (lines.zipIdx index).map fun l => ⟨l.1, region.any fun r => r.1 ≤ l.2 && l.2 < r.2⟩

theorem linesAt_cons (region : Option (Nat × Nat)) (index : Nat) (line : Text) (rest : List Text) :
    linesAt region index (line :: rest) =
      ⟨line, region.any fun r => r.1 ≤ index && index < r.2⟩ :: linesAt region (index + 1) rest := rfl

theorem linesAt_append (region : Option (Nat × Nat)) (index : Nat) (xs ys : List Text) :
    linesAt region index (xs ++ ys) =
      linesAt region index xs ++ linesAt region (index + xs.length) ys := by
  simp [linesAt, List.zipIdx_append]

theorem linesAt_text (region : Option (Nat × Nat)) (index : Nat) (lines : List Text) :
    (linesAt region index lines).map ConfigLine.text = lines := by
  simp [linesAt, Function.comp_def]

@[simp] theorem length_linesAt (region : Option (Nat × Nat)) (index : Nat) (lines : List Text) :
    (linesAt region index lines).length = lines.length := by simp [linesAt]

/-- A region has lines. -/
theorem markedRegion_lt {text : Text} {r : Nat × Nat} (h : markedRegion text = some r) : r.1 < r.2 := by
  unfold markedRegion at h
  split at h
  · cases h
  · obtain ⟨first, -, h⟩ := Option.bind_eq_some_iff.mp h
    obtain ⟨last, -, h⟩ := Option.map_eq_some_iff.mp h
    subst h
    dsimp only
    omega

/-- A block overlaps the region when it has a line in it. -/
theorem overlaps_iff {region : Option (Nat × Nat)} (some_ : ∀ r ∈ region, r.1 < r.2) {index : Nat}
    {lines : List Text} (long : 0 < lines.length) :
    (linesAt region index lines).all (fun l => !l.marked) =
      !overlaps region index (index + lines.length) := by
  cases region with
  | none => simp [linesAt, overlaps]
  | some r =>
    have low := some_ r rfl
    rw [Bool.eq_iff_iff, List.all_eq_true]
    simp only [overlaps, Option.any_some, Bool.not_eq_true', Bool.and_eq_false_iff,
      decide_eq_false_iff_not]
    constructor
    · intro h
      by_contra both
      have inside : max index r.1 - index < lines.length := by omega
      have member : (⟨lines[max index r.1 - index], true⟩ : ConfigLine) ∈
          linesAt (some r) index lines := by
        rw [linesAt, List.mem_map]
        refine ⟨(lines[max index r.1 - index], max index r.1), ?_, ?_⟩
        · rw [List.mem_zipIdx_iff_le_and_getElem?_sub]
          exact ⟨Nat.le_max_left _ _, List.getElem?_eq_getElem inside⟩
        · simp only [Option.any_some, ConfigLine.mk.injEq, true_and, Bool.and_eq_true,
            decide_eq_true_eq]
          omega
      have unmarked := h _ member
      cases unmarked
    · intro apart l member
      rw [linesAt, List.mem_map] at member
      obtain ⟨⟨line, i⟩, there, same⟩ := member
      rw [List.mem_zipIdx_iff_le_and_getElem?_sub] at there
      obtain ⟨from_, at_⟩ := there
      have upto : i - index < lines.length := (List.getElem?_eq_some_iff.mp at_).1
      subst same
      simp only [Option.any_some, Bool.and_eq_false_iff, decide_eq_false_iff_not]
      dsimp only at from_
      omega

theorem spans_skip (region : Option (Nat × Nat)) {n index : Nat} {lines : List Text}
    (h : n ≤ lines.length) :
    legacySpansFrom region n index lines = legacySpansFrom region 0 (index + n) (lines.drop n) := by
  induction lines generalizing n index with
  | nil =>
    obtain rfl : n = 0 := Nat.le_zero.mp h
    rfl
  | cons line rest ih =>
    cases n with
    | zero => rfl
    | succ n =>
      show legacySpansFrom region n (index + 1) rest = _
      rw [ih (Nat.le_of_succ_le_succ h), List.drop_succ_cons, Nat.add_assoc, Nat.add_comm 1 n]

/-- A span has lines, and begins at one of those that are read. -/
theorem spans_within {region : Option (Nat × Nat)} {n index : Nat} {lines : List Text}
    {s : Nat × Nat} (member : s ∈ legacySpansFrom region n index lines) :
    s.1 < s.2 ∧ index ≤ s.1 ∧ s.1 < index + lines.length := by
  induction lines generalizing n index with
  | nil => cases n <;> cases member
  | cons line rest ih =>
    rw [List.length_cons]
    have later : ∀ {m}, s ∈ legacySpansFrom region m (index + 1) rest →
        s.1 < s.2 ∧ index ≤ s.1 ∧ s.1 < index + (rest.length + 1) := by
      intro m member
      have := ih member
      omega
    cases n with
    | succ n => exact later member
    | zero =>
      unfold legacySpansFrom at member
      split at member
      · exact later member
      · dsimp only at member
        split at member
        · rcases List.mem_cons.mp member with rfl | member
          · dsimp only
            omega
          · exact later member
        · exact later member

/-- No line before the spans is in one of them. -/
theorem inSpans_before {spans : List (Nat × Nat)} {low i : Nat} (from_ : ∀ s ∈ spans, low ≤ s.1)
    (h : i < low) : inSpans spans i = false := by
  unfold inSpans
  rw [List.any_eq_false]
  intro s member
  have := from_ s member
  simp only [Bool.and_eq_true, decide_eq_true_eq]
  omega

theorem trimmed_text (block : List ConfigLine) :
    (trimmed block).map ConfigLine.text = (block.map ConfigLine.text).rdropWhile isBlank := by
  unfold trimmed
  induction block using List.reverseRecOn with
  | nil => rfl
  | append_singleton block l ih =>
    rw [List.map_append, List.map_singleton, List.rdropWhile_concat, List.rdropWhile_concat]
    split
    · exact ih
    · simp

theorem length_trimmed (region : Option (Nat × Nat)) (index : Nat) {line : Text} (body : List Text)
    (hook : isHookHeader line = true) : (trimmed (linesAt region index (line :: body))).length =
      1 + (body.rdropWhile isBlank).length := by
  have same := congrArg List.length (trimmed_text (linesAt region index (line :: body)))
  rw [List.length_map, linesAt_text] at same
  rw [same]
  have full := not_blank_of_header (isHeader_of_hook hook)
  clear same
  induction body using List.reverseRecOn with
  | nil => rw [List.rdropWhile_singleton, if_neg (by simp [full])]; rfl
  | append_singleton body l ih =>
    rw [← List.cons_append, List.rdropWhile_concat, List.rdropWhile_concat]
    split
    · exact ih
    · simp [Nat.add_comm]

theorem isManaged_linesAt {region : Option (Nat × Nat)} (some_ : ∀ r ∈ region, r.1 < r.2) (index : Nat)
    (line : Text) (body : List Text) : isManaged (linesAt region index (line :: body)) =
      (!overlaps region index (index + 1 + body.length) && runsManaged (line :: body).flatten) := by
  unfold isManaged
  have long : 0 < (line :: body).length := Nat.succ_pos body.length
  rw [overlaps_iff some_ long, linesAt_text, List.length_cons,
    show index + (body.length + 1) = index + 1 + body.length by omega]

theorem spans_single (region : Option (Nat × Nat)) (index : Nat) {line : Text} (rest : List Text)
    (plain : isHookHeader line = false) :
    legacySpansFrom region 0 index (line :: rest) = legacySpansFrom region 0 (index + 1) rest := by
  show (if _ then _ else _) = _
  rw [if_pos (by simp [plain])]

theorem spans_block (region : Option (Nat × Nat)) (index : Nat) {line : Text} {body after : List Text}
    (hook : isHookHeader line = true) (inside : ∀ b ∈ body, startsTable b = false)
    (stop : Stopped startsTable after) : legacySpansFrom region 0 index (line :: (body ++ after)) =
      if !overlaps region index (index + 1 + body.length) && runsManaged (line :: body).flatten then
        (index, index + 1 + (body.rdropWhile isBlank).length) ::
          legacySpansFrom region 0 (index + 1 + body.length) after
      else legacySpansFrom region 0 (index + 1 + body.length) after := by
  have later : legacySpansFrom region body.length (index + 1) (body ++ after) =
      legacySpansFrom region 0 (index + 1 + body.length) after := by
    rw [spans_skip region (by simp), List.drop_left]
  show (if _ then _ else _) = _
  rw [if_neg (by simp [hook]), takeWhile_stopped inside stop]
  dsimp only
  rw [later]

/-- The lines that the editor drops, block by block. -/
theorem dropped_flags {region : Option (Nat × Nat)} (some_ : ∀ r ∈ region, r.1 < r.2)
    (index : Nat) (lines : List Text) :
    (List.range' index lines.length).map (inSpans (legacySpansFrom region 0 index lines)) =
      chop ConfigLine.opensHook ConfigLine.opensTable (fun _ => [false])
        (fun _ block => firstOf (dropped block) block.length) false (linesAt region index lines) := by
  revert index
  refine chop_induction isHookHeader startsTable
    (P := fun lines => ∀ index,
      (List.range' index lines.length).map (inSpans (legacySpansFrom region 0 index lines)) =
      chop ConfigLine.opensHook ConfigLine.opensTable (fun _ => [false])
        (fun _ block => firstOf (dropped block) block.length) false (linesAt region index lines))
    (fun _ => rfl) ?_ ?_ lines
  · intro line rest plain ih index
    have none_ : ConfigLine.opensHook ⟨line, region.any fun r => r.1 ≤ index && index < r.2⟩ = false :=
      plain
    rw [spans_single region index rest plain, linesAt_cons, chop_single none_, List.length_cons, List.range'_succ, List.map_cons, ih]
    rw [inSpans_before (fun s member => (spans_within member).2.1) (Nat.lt_succ_self index)]
    rfl
  · intro line body after hook inside stop ih index
    have managed := isManaged_linesAt some_ index line body
    have long := length_trimmed region index body hook
    have short : (body.rdropWhile isBlank).length ≤ body.length := (List.rdropWhile_prefix _ _).length_le
    have spans := spans_block region index hook inside stop
    rw [← managed] at spans
    have first : (List.range' index (line :: body).length).map
        (inSpans (legacySpansFrom region 0 index (line :: (body ++ after)))) =
        firstOf (dropped (linesAt region index (line :: body))) (line :: body).length := by
      unfold firstOf
      rw [List.range'_eq_map_range, List.map_map]
      refine List.map_congr_left fun i member => ?_
      rw [List.mem_range, List.length_cons] at member
      have none_ : inSpans (legacySpansFrom region 0 (index + 1 + body.length) after) (index + i) = false :=
        inSpans_before (fun s member => (spans_within member).2.1) (by omega)
      rw [Function.comp_apply, spans, dropped]
      split
      · unfold inSpans at none_ ⊢
        rw [List.any_cons, none_, Bool.or_false, long, Bool.eq_iff_iff]
        simp only [Bool.and_eq_true, decide_eq_true_eq]
        omega
      · rw [none_, decide_eq_false (Nat.not_lt_zero i)]
    have second : (List.range' (index + 1 + body.length) after.length).map
        (inSpans (legacySpansFrom region 0 index (line :: (body ++ after)))) =
        (List.range' (index + 1 + body.length) after.length).map
          (inSpans (legacySpansFrom region 0 (index + 1 + body.length) after)) := by
      refine List.map_congr_left fun i member => ?_
      rw [List.mem_range'_1] at member
      rw [spans]
      split
      · have passed : ¬ i < index + 1 + (body.rdropWhile isBlank).length := by omega
        simp [inSpans, passed]
      · rfl
    have stopped : Stopped ConfigLine.opensTable
        (linesAt region (index + (line :: body).length) after) := by
      intro b is
      cases after with
      | nil => cases is
      | cons line' after =>
        cases is
        exact stop line' rfl
    have inside' : ∀ b ∈ linesAt region (index + 1) body, b.opensTable = false := by
      intro b member
      refine inside b.text ?_
      rw [← linesAt_text region (index + 1) body]
      exact List.mem_map_of_mem member
    have place : index + (line :: body).length = index + 1 + body.length := by
      rw [List.length_cons]
      omega
    rw [← List.cons_append, List.length_append, List.range'_append_1.symm, List.map_append,
      List.cons_append, first, place, second, ih, ← List.cons_append, linesAt_append, place,
      linesAt_cons, List.cons_append]
    rw [place] at stopped
    have hook' : ConfigLine.opensHook ⟨line, region.any fun r => r.1 ≤ index && index < r.2⟩ = true := hook
    rw [chop_block hook' inside' stopped, List.length_cons, List.length_cons, length_linesAt]

/-! ## Whole configurations -/

/-- The blocks, each with whether more lines follow. -/
def blocksOf (lines : List ConfigLine) : List (Bool × List ConfigLine) :=
  chop ConfigLine.opensHook ConfigLine.opensTable (fun _ => []) (fun followed block => [(followed, block)])
    false lines

/-- Each block of a configuration is tidy. -/
def Tidy (text : Text) : Prop := ∀ b ∈ blocksOf (configLines text), TidyBlock b.1 b.2

theorem length_flags (followed : Bool) (lines : List ConfigLine) :
    (chop ConfigLine.opensHook ConfigLine.isHeader (fun _ => [false])
      (fun followed section_ => firstOf (goes followed section_) section_.length) followed lines).length =
      lines.length := by
  refine chop_induction ConfigLine.opensHook ConfigLine.isHeader
    (P := fun lines => (chop ConfigLine.opensHook ConfigLine.isHeader (fun _ => [false])
      (fun followed section_ => firstOf (goes followed section_) section_.length) followed lines).length =
      lines.length) rfl ?_ ?_ lines
  · intro a rest plain ih
    rw [chop_single plain, List.length_append, ih]
    simp [Nat.add_comm]
  · intro a body after hook inside stop ih
    rw [chop_block hook inside stop, List.length_append, ih, length_firstOf, ← List.cons_append,
      List.length_append]

theorem flags_agree (lines : List ConfigLine) :
    chop ConfigLine.opensHook ConfigLine.opensTable (fun _ => [false])
        (fun _ block => firstOf (dropped block) block.length) false lines =
      chop ConfigLine.opensHook ConfigLine.isHeader (fun _ => [false])
        (fun followed section_ => firstOf (goes followed section_) section_.length) false lines ↔
      ∀ b ∈ blocksOf lines, TidyBlock b.1 b.2 := by
  refine chop_induction ConfigLine.opensHook ConfigLine.opensTable
    (P := fun lines => chop ConfigLine.opensHook ConfigLine.opensTable (fun _ => [false])
        (fun _ block => firstOf (dropped block) block.length) false lines =
      chop ConfigLine.opensHook ConfigLine.isHeader (fun _ => [false])
        (fun followed section_ => firstOf (goes followed section_) section_.length) false lines ↔
      ∀ b ∈ blocksOf lines, TidyBlock b.1 b.2) (by simp [blocksOf]) ?_ ?_ lines
  · intro a rest plain ih
    unfold blocksOf at ih ⊢
    rw [chop_single plain, chop_single plain, chop_single plain, List.nil_append, ← ih,
      List.append_right_inj]
  · intro a body after hook inside stop ih
    have header := ConfigLine.isHeader_of_hook hook
    have stop' : Stopped ConfigLine.isHeader after := fun b is =>
      ConfigLine.isHeader_of_table (stop b is)
    unfold blocksOf at ih ⊢
    rw [chop_block hook inside stop, chop_block hook inside stop, List.singleton_append,
      List.forall_mem_cons, ← ih, ← tidy_block header, ← List.cons_append, chop_append _ stop']
    constructor
    · intro h
      exact List.append_inj h (by rw [length_firstOf, length_flags])
    · rintro ⟨here, later⟩
      rw [here, later]

theorem configLines_eq (text : Text) : configLines text = linesAt (markedRegion text) 0 text.lines := rfl

theorem isDropped_eq (text : Text) : (List.range text.lines.length).map (isDropped text) =
    chop ConfigLine.opensHook ConfigLine.opensTable (fun _ => [false])
      (fun _ block => firstOf (dropped block) block.length) false (configLines text) := by
  rw [configLines_eq, ← dropped_flags (fun r is => markedRegion_lt is), ← List.range_eq_range']
  rfl

/-- The lines with a number of which a test fails, against the flags of the numbers. -/
theorem keptLines_range (drop : Nat → Bool) (index : Nat) (lines : List Text) :
    keptLines lines ((List.range' index lines.length).map drop) =
      (((lines.zipIdx index).filter fun l => !drop l.2).map Prod.fst).flatten := by
  unfold keptLines
  induction lines generalizing index with
  | nil => rfl
  | cons line rest ih =>
    rw [List.length_cons, List.range'_succ, List.map_cons, List.zip_cons_cons, List.zipIdx_cons,
      List.filter_cons, List.filter_cons]
    dsimp only
    split
    · rw [List.map_cons, List.map_cons, List.flatten_cons, List.flatten_cons, ih]
    · exact ih (index + 1)

/-- What is left are the lines that are not dropped. -/
theorem stripLegacySections_eq (text : Text) : stripLegacySections text =
    keptLines text.lines ((List.range text.lines.length).map (isDropped text)) := by
  rw [List.range_eq_range', keptLines_range]
  unfold stripLegacySections
  split
  · next none_ =>
    have fine : ∀ i, isDropped text i = false := by
      intro i
      simp [isDropped, List.isEmpty_iff.mp none_]
    simp [fine]
  · rfl

/-- The editor drops the legacy sections and nothing else exactly on tidy configurations. -/
theorem stripsExactly_iff (text : Text) : StripsExactly text ↔ Tidy text := by
  unfold StripsExactly Tidy
  rw [← flags_agree, ← isDropped_eq]
  constructor
  · exact fun h => h.1
  · exact fun h => ⟨h, by rw [stripLegacySections_eq, h]; rfl⟩

end Installer

end Cmpath
