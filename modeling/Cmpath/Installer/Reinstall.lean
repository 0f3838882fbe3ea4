import Cmpath.Installer.Tidy
import Cmpath.Store.Schema

/-!
# Installing and uninstalling

`install` and `uninstall` of `scripts/install_autosave.py:148-190` on a configuration file. The reader
of TOML is a parameter of the two, and the time in the name of a backup is left out.
-/

namespace Cmpath
open Lib

namespace Installer

/-! ## The file -/

/-- A configuration file: what it holds, if it is there, whether its directory is, and its backups. -/
structure ConfigFile where
  content : Option Text
  directory : Bool
  backups : List Text
  decodes : ∀ t ∈ content, t.valid = true

/-- `read_config`. -/
def readConfig (f : ConfigFile) : Text := (f.content.map Text.universal).getD []

/-- `backup`. -/
def ConfigFile.backup (f : ConfigFile) : ConfigFile :=
  { f with backups := f.content.toList ++ f.backups }

/-- `path.write_text`: the file is truncated before the text is encoded. -/
def ConfigFile.write (f : ConfigFile) (t : Text) : Except Exc Nat × ConfigFile :=
  if h : t.valid = true then
    (.ok 0, { f with content := some t, decodes := by rintro _ ⟨⟩; exact h })
  else (.error .value, { f with content := some [], decodes := by rintro _ ⟨⟩; rfl })

/-! ## The operations -/

/-- `MANAGED_EVENTS`. -/
def managedEvents : List Text := [Text.lit "TurnStarted", Text.lit "Stop", Text.lit "SessionEnd"]

/-- The block of one event (`render_block`). -/
def renderHook (script event : Text) : Text :=
  Text.join (Text.lit "\n") [Text.lit "[[hooks]]", Text.lit "event = \"" ++ event ++ Text.lit "\"",
    Text.lit "command = \"python3 " ++ script ++ Text.lit "\"", Text.lit "timeout = 10"]

/-- `render_block`. -/
def renderBlock (script : Text) : Text :=
  beginMarker ++ Text.lit "\n" ++ Text.join (Text.lit "\n\n") (managedEvents.map (renderHook script)) ++
    Text.lit "\n" ++ endMarker ++ Text.lit "\n"

/-- The text that `install` writes. -/
def installedText (script text : Text) : Text :=
  let new := stripLegacySections text
  let new := if new ≠ [] ∧ new.getLast? ≠ some (.char '\n') then new ++ Text.lit "\n" else new
  new ++ (Text.lit "\n" ++ renderBlock script)

/-- `install`. -/
def install (verifyToml : Text → Bool) (script : Text) (f : ConfigFile) : Except Exc Nat × ConfigFile :=
  let text := readConfig f
  if isInstalled text then (.ok 1, f)
  else if !f.directory then (.ok 1, f)
  else
    let new := installedText script text
    if !verifyToml new then (.ok 1, f.backup) else f.backup.write new

/-- `pattern.sub("", text)`, for the number of regions that are looked for at most. -/
def cutFrom : Nat → Text → Text
  | 0, t => t
  | fuel + 1, t =>
      match Text.splitAt? beginMarker t with
      | none => t
      | some (before, rest) =>
          match Text.splitAt? endMarker rest with
          | none => t
          | some (_, after) =>
              before ++ cutFrom fuel (if after.head? = some (.char '\n') then after.drop 1 else after)

/-- Each region takes some of the text. -/
def cutRegions (t : Text) : Text := cutFrom t.length t

/-- The text that `uninstall` writes. -/
def uninstalledText (text : Text) : Text :=
  let new := if Text.occurs beginMarker text && Text.occurs endMarker text then cutRegions text else text
  stripLegacySections new

/-- `uninstall`. -/
def uninstall (f : ConfigFile) : Except Exc Nat × ConfigFile :=
  let text := readConfig f
  let new := uninstalledText text
  if new = text then (.ok 1, f) else f.backup.write new

/-! ## Marker lines -/

theorem marker_flat : Rune.char '\n' ∉ beginMarker ∧ Rune.char '\n' ∉ endMarker := by decide +kernel

theorem marker_some : beginMarker ≠ [] ∧ endMarker ≠ [] := by decide +kernel

/-- A block up to the script. -/
def hookOpen (event : Text) : Text :=
  Text.lit "[[hooks]]\nevent = \"" ++ (event ++ Text.lit "\"\ncommand = \"python3 ")

/-- A block after the quote that ends the command. -/
def hookClose : Text := Text.lit "\ntimeout = 10"

theorem renderHook_eq (script event : Text) :
    renderHook script event = hookOpen event ++ (script ++ .char '"' :: hookClose) := by
  simp [renderHook, hookOpen, hookClose, Text.join, List.intercalate, Text.lit]

/-- What is between the markers. -/
def regionText (script : Text) : Text :=
  Text.lit "\n" ++ (hookOpen (Text.lit "TurnStarted") ++ (script ++ .char '"' ::
    (hookClose ++ (Text.lit "\n\n" ++ (hookOpen (Text.lit "Stop") ++ (script ++ .char '"' ::
      (hookClose ++ (Text.lit "\n\n" ++ (hookOpen (Text.lit "SessionEnd") ++ (script ++ .char '"' ::
        (hookClose ++ Text.lit "\n")))))))))))

theorem renderBlock_eq (script : Text) :
    renderBlock script = beginMarker ++ (regionText script ++ (endMarker ++ Text.lit "\n")) := by
  simp [renderBlock, renderHook_eq, managedEvents, regionText, Text.join, List.intercalate]

/-- The end of the region is not in it when it is not in the script. -/
theorem regionText_open {script : Text} (absent : ¬ endMarker <:+: script) :
    ¬ endMarker <:+: regionText script := by
  have quote : Rune.char '"' ∉ endMarker := by decide +kernel
  obtain ⟨tail, marker⟩ : ∃ tail, endMarker = .char '#' :: tail := ⟨endMarker.tail, by decide +kernel⟩
  have line : Rune.char '#' ∉ Text.lit "\n" := by decide +kernel
  have gap : Rune.char '#' ∉ Text.lit "\n\n" := by decide +kernel
  have close : Rune.char '#' ∉ hookClose := by decide +kernel
  have opens : ∀ event ∈ managedEvents, Rune.char '#' ∉ hookOpen event := by decide +kernel
  have skip : ∀ {piece rest : Text}, Rune.char '#' ∉ piece → endMarker <:+: piece ++ rest →
      endMarker <:+: rest := by
    intro piece rest plain h
    rw [marker] at h ⊢
    exact (Text.infix_after plain).mp h
  have pass : ∀ {rest : Text}, endMarker <:+: script ++ .char '"' :: rest → endMarker <:+: rest :=
    fun h => ((Text.infix_around quote).mp h).resolve_left absent
  intro h
  unfold regionText at h
  have second := skip gap (skip close (pass (skip (opens _ (by simp [managedEvents])) (skip line h))))
  have third := skip gap (skip close (pass (skip (opens _ (by simp [managedEvents])) second)))
  have last := skip close (pass (skip (opens _ (by simp [managedEvents])) third))
  rw [← List.append_nil (Text.lit "\n")] at last
  have none_ := skip line last
  rw [List.infix_nil] at none_
  exact marker_some.2 none_

/-! ## A line feed at the end -/

/-- White space at the end is kept when there is something else. -/
theorem dropWhile_newline (t : Text) :
    (t.dropWhile Rune.isStripped = [] ∧ (t ++ [Rune.char '\n']).dropWhile Rune.isStripped = []) ∨
      (t ++ [Rune.char '\n']).dropWhile Rune.isStripped = t.dropWhile Rune.isStripped ++ [Rune.char '\n'] := by
  induction t with
  | nil => exact .inl ⟨rfl, by decide⟩
  | cons r t ih =>
    rw [List.cons_append, List.dropWhile_cons, List.dropWhile_cons]
    split
    · exact ih
    · exact .inr rfl

theorem isPrefixOf_newline {needle t : Text} (flat : Rune.char '\n' ∉ needle) :
    needle.isPrefixOf (t ++ [Rune.char '\n']) = needle.isPrefixOf t := by
  induction needle generalizing t with
  | nil => rfl
  | cons c needle ih =>
    rw [List.mem_cons, not_or] at flat
    cases t with
    | nil =>
      show (c == .char '\n' && _) = false
      rw [beq_false_of_ne fun same => flat.1 same.symm, Bool.false_and]
    | cons r t =>
      show (c == r && needle.isPrefixOf (t ++ [Rune.char '\n'])) = (c == r && needle.isPrefixOf t)
      rw [ih flat.2]

theorem takeWhile_newline (t : Text) :
    ((t ++ [Rune.char '\n']).takeWhile fun r => r != .char '\n') = t.takeWhile fun r => r != .char '\n' := by
  induction t with
  | nil => rfl
  | cons r t ih =>
    rw [List.cons_append, List.takeWhile_cons, List.takeWhile_cons, ih]

theorem commandAt_newline (t : Text) : commandAt (t ++ [Rune.char '\n']) = commandAt t := by
  have flat : Rune.char '\n' ∉ Text.lit "command" ∧ Rune.char '\n' ∉ Text.lit "=" := by decide +kernel
  have sevens : (Text.lit "command").length = 7 ∧ (Text.lit "=").length = 1 := by decide +kernel
  unfold commandAt
  dsimp only
  rcases dropWhile_newline t with ⟨none_, none'⟩ | same
  · rw [none_, none']
  rw [same, isPrefixOf_newline flat.1]
  cases key : (Text.lit "command").isPrefixOf (t.dropWhile Rune.isStripped) with
  | false => rfl
  | true =>
    have long : 7 ≤ (t.dropWhile Rune.isStripped).length := by
      rw [← sevens.1]
      exact (List.isPrefixOf_iff_prefix.mp key).length_le
    rw [List.drop_append_of_le_length long, Bool.true_and, Bool.true_and]
    rcases dropWhile_newline ((t.dropWhile Rune.isStripped).drop 7) with ⟨none_, none'⟩ | same
    · rw [none_, none']
    rw [same, isPrefixOf_newline flat.2]
    cases sign : (Text.lit "=").isPrefixOf
        (((t.dropWhile Rune.isStripped).drop 7).dropWhile Rune.isStripped) with
    | false => rfl
    | true =>
      have long' : 1 ≤ (((t.dropWhile Rune.isStripped).drop 7).dropWhile Rune.isStripped).length := by
        rw [← sevens.2]
        exact (List.isPrefixOf_iff_prefix.mp sign).length_le
      rw [List.drop_append_of_le_length long', takeWhile_newline]

theorem searchFrom_newline (begins : Bool) (t : Text) :
    searchFrom begins (t ++ [Rune.char '\n']) = searchFrom begins t := by
  induction t generalizing begins with
  | nil => cases begins <;> decide +kernel
  | cons r t ih =>
    show (begins && commandAt (r :: t ++ [Rune.char '\n']) || searchFrom _ (t ++ [Rune.char '\n'])) = _
    rw [commandAt_newline, ih]
    rfl

theorem hookHeader_newline (line : Text) : isHookHeader (line ++ [Rune.char '\n']) = isHookHeader line := by
  have flat : Rune.char '\n' ∉ Text.lit "[[hooks]]" := by decide +kernel
  unfold isHookHeader
  rcases dropWhile_newline line with ⟨none_, none'⟩ | same
  · rw [none_, none']
  · rw [same, isPrefixOf_newline flat]

theorem startsTable_newline {line : Text} (some_ : line ≠ []) :
    startsTable (line ++ [Rune.char '\n']) = startsTable line := by
  cases line with
  | nil => exact absurd rfl some_
  | cons r line => rfl

theorem stopped_closed {lines lines' : List Text} (more : lines ≠ []) (stop : Stopped startsTable lines)
    (closed : Text.Closed lines lines') : Stopped startsTable lines' := by
  cases lines with
  | nil => exact absurd rfl more
  | cons line rest =>
    intro b first
    rcases closed.cons_inv with ⟨rest', rfl, -⟩ | ⟨-, some_, rfl⟩
    · exact stop b first
    · cases first
      rw [startsTable_newline some_]
      exact stop line rfl

theorem inside_closed {lines lines' : List Text} (inside : ∀ b ∈ lines, startsTable b = false)
    (closed : Text.Closed lines lines') : ∀ b ∈ lines', startsTable b = false := by
  cases closed with
  | line =>
    intro b member
    rcases List.mem_append.mp member with old | new
    · exact inside b old
    · rw [List.mem_singleton.mp new]
      decide
  | last init some_ =>
    intro b member
    rcases List.mem_append.mp member with old | new
    · exact inside b (List.mem_append_left _ old)
    · rw [List.mem_singleton.mp new, startsTable_newline some_]
      exact inside _ (List.mem_append_right _ List.mem_cons_self)

theorem block_closed {a : Text} {body lines' : List Text} (hook : isHookHeader a = true)
    (inside : ∀ b ∈ body, startsTable b = false) (closed : Text.Closed (a :: body) lines') :
    ∃ a' body', lines' = a' :: body' ∧ isHookHeader a' = true ∧ ∀ b ∈ body', startsTable b = false := by
  rcases closed.cons_inv with ⟨rest', rfl, closed'⟩ | ⟨-, -, rfl⟩
  · exact ⟨a, rest', rfl, hook, inside_closed inside closed'⟩
  · exact ⟨_, [], rfl, by rw [hookHeader_newline, hook], fun b member => by cases member⟩

/-- A configuration without a section to drop has none when a line feed is put at its end. -/
theorem spans_closed {lines lines' : List Text} (closed : Text.Closed lines lines') (index : Nat)
    (none_ : legacySpansFrom none 0 index lines = []) : legacySpansFrom none 0 index lines' = [] := by
  revert lines'
  revert index
  refine chop_induction isHookHeader startsTable
    (P := fun lines => ∀ index, legacySpansFrom none 0 index lines = [] → ∀ {lines'},
      Text.Closed lines lines' → legacySpansFrom none 0 index lines' = []) ?_ ?_ ?_ lines
  · intro index _ lines' closed
    rw [closed.nil_inv, spans_single none index [] (by decide)]
    rfl
  · intro a rest plain ih index none_ lines' closed
    rw [spans_single none index rest plain] at none_
    rcases closed.cons_inv with ⟨rest', rfl, closed'⟩ | ⟨-, -, rfl⟩
    · rw [spans_single none index rest' plain]
      exact ih (index + 1) none_ closed'
    · rw [spans_single none index [] (by rw [hookHeader_newline, plain])]
      rfl
  · intro a body after hook inside stop ih index none_ lines' closed
    rw [spans_block none index hook inside stop] at none_
    split at none_
    · cases none_
    next quiet =>
    have silent : runsManaged (a :: body).flatten = false := by simpa [overlaps] using quiet
    rcases List.eq_nil_or_concat after with rfl | ⟨before, line, shape⟩
    · rw [List.append_nil] at closed
      obtain ⟨a', body', rfl, hook', inside'⟩ := block_closed hook inside closed
      have silent' : runsManaged (a' :: body').flatten = false := by
        rw [closed.flatten, runsManaged, searchFrom_newline]
        exact silent
      have stop' : Stopped startsTable [] := fun b is => by cases is
      have spans := spans_block none index hook' inside' stop'
      rw [List.append_nil] at spans
      rw [spans, silent', Bool.and_false, if_neg (by decide)]
      rfl
    · have more : after ≠ [] := by simp [shape]
      rw [← List.cons_append] at closed
      obtain ⟨after', rfl, closed'⟩ := closed.append_inv more
      rw [List.cons_append, spans_block none index hook inside (stopped_closed more stop closed'),
        if_neg (by simpa using quiet)]
      exact ih _ none_ closed'

/-! ## Back again -/

/-- There is no managed or legacy section. -/
def Clean (text : Text) : Prop := isInstalled text = false ∧ ∀ flag ∈ legacyFlags text, flag = false

/-- The editor has nothing to do. -/
def Quiet (text : Text) : Prop := isInstalled text = false ∧ legacySpansFrom none 0 0 text.lines = []

theorem Quiet.region {text : Text} (h : Quiet text) : markedRegion text = none := by
  unfold markedRegion
  rw [h.1]
  rfl

theorem Quiet.strip {text : Text} (h : Quiet text) : stripLegacySections text = text := by
  unfold stripLegacySections legacySectionSpans
  rw [h.region, h.2]
  rfl

/-- A clean configuration from which nothing is dropped. -/
theorem Clean.quiet {text : Text} (clean : Clean text) (exact_ : StripsExactly text) : Quiet text := by
  refine ⟨clean.1, ?_⟩
  have region : markedRegion text = none := by
    unfold markedRegion
    rw [clean.1]
    rfl
  rw [List.eq_nil_iff_forall_not_mem]
  intro s member
  have within := spans_within member
  have dropped_ : isDropped text s.1 = true := by
    unfold isDropped legacySectionSpans
    rw [region, List.any_eq_true]
    refine ⟨s, member, ?_⟩
    simp [within.1]
  have flag : isDropped text s.1 ∈ legacyFlags text := by
    rw [← exact_.1]
    exact List.mem_map_of_mem (List.mem_range.mpr (by omega))
  rw [clean.2 _ flag] at dropped_
  exact absurd dropped_ (by decide)

theorem isInstalled_newline {text : Text} (h : isInstalled text = false) :
    isInstalled (text ++ [Rune.char '\n']) = false := by
  unfold isInstalled at h ⊢
  rw [Bool.or_eq_false_iff] at h ⊢
  have missed : ∀ {marker : Text}, marker ≠ [] → Rune.char '\n' ∉ marker →
      Text.occurs marker text = false → Text.occurs marker (text ++ [Rune.char '\n']) = false := by
    intro marker some_ flat absent
    rw [← Bool.not_eq_true, Text.occurs_iff] at absent ⊢
    rw [Text.infix_around flat, List.infix_nil]
    rintro (left | right)
    · exact absent left
    · exact some_ right
  exact ⟨missed marker_some.1 marker_flat.1 h.1, missed marker_some.2 marker_flat.2 h.2⟩

theorem Quiet.newline {text : Text} (h : Quiet text) : Quiet (text ++ [Rune.char '\n']) :=
  ⟨isInstalled_newline h.1, spans_closed (Text.closed_lines text) 0 h.2⟩

theorem regionText_line (script : Text) : ∃ init, regionText script = init ++ [Rune.char '\n'] := by
  have line : Text.lit "\n" = [Rune.char '\n'] := by decide +kernel
  unfold regionText
  simp only [← List.append_assoc, ← List.cons_append]
  exact ⟨_, congrArg _ line⟩

/-- What is read of an installed block. -/
theorem universal_block (script : Text) : Text.universal (renderBlock script) =
    beginMarker ++ (Text.universal (regionText script) ++ (endMarker ++ Text.lit "\n")) := by
  have flat : Rune.char '\r' ∉ beginMarker ∧ Rune.char '\r' ∉ endMarker ++ Text.lit "\n" := by
    decide +kernel
  obtain ⟨tail, marker⟩ : ∃ tail, endMarker = .char '#' :: tail := ⟨endMarker.tail, by decide +kernel⟩
  rw [renderBlock_eq, Text.universal_append flat.1]
  congr 1
  have cut : Text.universal (regionText script ++ .char '#' :: (tail ++ Text.lit "\n")) =
      Text.universal (regionText script) ++ Text.universal (.char '#' :: (tail ++ Text.lit "\n")) :=
    Text.universal_cut (regionText script) (by decide)
  rw [← List.cons_append, ← marker, Text.universal_of_flat flat.2] at cut
  exact cut

/-- The region is cut out of what is installed, when it ends where it should. -/
theorem cutRegions_block {before script : Text} (absent : ¬ beginMarker <:+: before)
    (ended : before = [] ∨ ∃ init, before = init ++ [Rune.char '\n'])
    (open_ : ¬ endMarker <:+: script) :
    cutRegions (before ++ Text.universal (renderBlock script)) = before := by
  have inner : ¬ endMarker <:+: Text.universal (regionText script) := fun h =>
    regionText_open open_ (Text.infix_universal marker_some.2 marker_flat.2 h)
  obtain ⟨init, line⟩ := regionText_line script
  have closed : ∃ init', Text.universal (regionText script) = init' ++ [Rune.char '\n'] := by
    rw [line]
    exact Text.universal_line init
  have first : Text.splitAt? beginMarker (before ++ (beginMarker ++
      (Text.universal (regionText script) ++ (endMarker ++ Text.lit "\n")))) =
      some (before, Text.universal (regionText script) ++ (endMarker ++ Text.lit "\n")) :=
    Text.splitAt?_line marker_some.1 marker_flat.1 absent ended
  have second : Text.splitAt? endMarker (Text.universal (regionText script) ++
      (endMarker ++ Text.lit "\n")) = some (Text.universal (regionText script), Text.lit "\n") :=
    Text.splitAt?_line marker_some.2 marker_flat.2 inner (.inr closed)
  have rest : ∀ fuel, cutFrom fuel [] = [] := by
    intro fuel
    cases fuel with
    | zero => rfl
    | succ fuel =>
      unfold cutFrom
      rw [Text.splitAt?_none marker_some.1 (by rw [List.infix_nil]; exact marker_some.1)]
  unfold cutRegions
  rw [universal_block]
  generalize whole : before ++ (beginMarker ++ (Text.universal (regionText script) ++
    (endMarker ++ Text.lit "\n"))) = t at first ⊢
  cases t with
  | nil =>
    obtain ⟨_, none_⟩ := List.append_eq_nil_iff.mp whole
    exact absurd (List.append_eq_nil_iff.mp none_).1 marker_some.1
  | cons r t =>
    rw [List.length_cons]
    unfold cutFrom
    rw [first]
    dsimp only
    rw [second]
    show before ++ cutFrom _ [] = before
    rw [rest, List.append_nil]

/-- What is installed on a quiet configuration. -/
theorem installedText_eq {text : Text} (quiet : Quiet text) (script : Text) :
    ∃ n before, installedText script text = before ++ renderBlock script ∧
      before = text ++ List.replicate n (Rune.char '\n') ∧ Quiet before ∧
      ∃ init, before = init ++ [Rune.char '\n'] := by
  unfold installedText
  rw [quiet.strip]
  dsimp only
  split
  · refine ⟨2, text ++ [Rune.char '\n'] ++ [Rune.char '\n'], ?_, ?_, quiet.newline.newline, _, rfl⟩
    · exact (List.append_assoc _ _ _).symm
    · exact List.append_assoc _ _ _
  · exact ⟨1, text ++ [Rune.char '\n'], (List.append_assoc _ _ _).symm, rfl, quiet.newline, _, rfl⟩

/-- What is uninstalled from it. -/
theorem uninstalledText_block {before script : Text} (quiet : Quiet before)
    (ended : ∃ init, before = init ++ [Rune.char '\n']) (open_ : ¬ endMarker <:+: script) :
    uninstalledText (before ++ Text.universal (renderBlock script)) = before := by
  have absent : ¬ beginMarker <:+: before := by
    rw [← Text.occurs_iff]
    have both := quiet.1
    unfold isInstalled at both
    rw [Bool.or_eq_false_iff] at both
    simp [both.1]
  have begins : Text.occurs beginMarker (before ++ Text.universal (renderBlock script)) = true := by
    rw [Text.occurs_iff, universal_block]
    exact ⟨before, _, List.append_assoc _ _ _⟩
  have ends : Text.occurs endMarker (before ++ Text.universal (renderBlock script)) = true := by
    rw [Text.occurs_iff, universal_block]
    exact ⟨before ++ (beginMarker ++ Text.universal (regionText script)), Text.lit "\n", by
      simp only [List.append_assoc]⟩
  unfold uninstalledText
  rw [begins, ends]
  show stripLegacySections (cutRegions _) = before
  rw [cutRegions_block absent (.inr ended) open_, quiet.strip]

/-! ## The file again -/

/-- What comes back is the text that was there, and perhaps line feeds at its end. -/
def GivesBack (verifyToml : Text → Bool) (script : Text) (f : ConfigFile) : Prop :=
  ∃ n, readConfig (uninstall (install verifyToml script f).2).2 =
    readConfig f ++ List.replicate n (Rune.char '\n')

/-- The installer touches its own sections only: it drops those, and gives back what it changed. -/
def OwnOnly (verifyToml : Text → Bool) (script text : Text) (f : ConfigFile) : Prop :=
  StripsExactly text ∧ (readConfig f = text → Clean text → GivesBack verifyToml script f)

/-- The text is that of a clean file that `install` writes. -/
def Writes (verifyToml : Text → Bool) (script text : Text) (f : ConfigFile) : Prop :=
  readConfig f = text ∧ Clean text ∧ f.directory = true ∧ verifyToml (installedText script text) = true

theorem readConfig_flat (f : ConfigFile) : Rune.char '\r' ∉ readConfig f := by
  unfold readConfig
  cases f.content with
  | none => exact List.not_mem_nil
  | some t => exact Text.universal_flat

theorem universal_subset (t : Text) : Text.universal t ⊆ .char '\n' :: t := by
  fun_induction Text.universal t with
  | case1 => exact List.nil_subset _
  | case2 t ih => exact List.cons_subset.mpr ⟨List.mem_cons_self, fun r member => by
      rcases List.mem_cons.mp (ih member) with rfl | old
      · exact List.mem_cons_self
      · simp [old]⟩
  | case3 t _ ih => exact List.cons_subset.mpr ⟨List.mem_cons_self, fun r member => by
      rcases List.mem_cons.mp (ih member) with rfl | old
      · exact List.mem_cons_self
      · simp [old]⟩
  | case4 r t _ _ ih => exact List.cons_subset.mpr ⟨by simp, fun c member => by
      rcases List.mem_cons.mp (ih member) with rfl | old
      · exact List.mem_cons_self
      · simp [old]⟩

theorem readConfig_valid (f : ConfigFile) : (readConfig f).valid = true := by
  unfold readConfig
  cases content : f.content with
  | none => rfl
  | some t =>
    refine Text.valid_of_subset (universal_subset t) ?_
    rw [Text.valid_cons, f.decodes t content]
    rfl

/-- Nothing is done to a configuration without a section of the installer. -/
theorem uninstall_quiet {f : ConfigFile} (quiet : Quiet (readConfig f)) : (uninstall f).2 = f := by
  have same : uninstalledText (readConfig f) = readConfig f := by
    have none_ := quiet.1
    unfold isInstalled at none_
    rw [Bool.or_eq_false_iff] at none_
    unfold uninstalledText
    rw [none_.1, Bool.false_and]
    exact quiet.strip
  unfold uninstall
  dsimp only
  rw [if_pos same]

theorem readConfig_uninstall {f : ConfigFile} {new : Text} (same : uninstalledText (readConfig f) = new)
    (valid : new.valid = true) (flat : Rune.char '\r' ∉ new) : readConfig (uninstall f).2 = new := by
  unfold uninstall
  dsimp only
  rw [same]
  split
  · next unchanged => exact unchanged.symm
  · unfold ConfigFile.write
    rw [dif_pos valid]
    exact Text.universal_of_flat flat

/-- The installer leaves the text alone where it writes nothing. -/
theorem install_refused {verifyToml : Text → Bool} {script : Text} {f : ConfigFile}
    (refused : f.directory = false ∨ verifyToml (installedText script (readConfig f)) = false) :
    readConfig (install verifyToml script f).2 = readConfig f := by
  unfold install
  dsimp only
  split
  · rfl
  split
  · rfl
  next there =>
  rcases refused with missing | rejected
  · simp [missing] at there
  · rw [rejected, if_pos (by decide)]
    rfl

theorem install_writes {verifyToml : Text → Bool} {script text : Text} {f : ConfigFile}
    (writes : Writes verifyToml script text f) :
    (install verifyToml script f).2 = (f.backup.write (installedText script text)).2 := by
  obtain ⟨rfl, clean, there, fine⟩ := writes
  unfold install
  dsimp only
  rw [clean.1, there, fine]
  rfl

/-- The text that is written can be encoded when the script can. -/
theorem installedText_valid (script : Text) {text before : Text} {n : Nat} (valid : text.valid = true)
    (same : before = text ++ List.replicate n (Rune.char '\n')) :
    Text.valid (before ++ renderBlock script) = script.valid ∧ before.valid = true := by
  have lines : Text.valid (List.replicate n (Rune.char '\n')) = true := by
    refine Text.valid_of_subset (t := [Rune.char '\n']) (fun r member => ?_) rfl
    rw [List.eq_of_mem_replicate member]
    exact List.mem_cons_self
  have fixed : beginMarker.valid = true ∧ endMarker.valid = true ∧ hookClose.valid = true ∧
      (Rune.char '"').isScalar = true := by decide +kernel
  have before_ : before.valid = true := by
    rw [same, Text.valid_append, valid, lines]
    rfl
  refine ⟨?_, before_⟩
  rw [Text.valid_append, before_, renderBlock_eq]
  unfold regionText hookOpen
  simp only [Text.valid_append, Text.valid_cons, Text.valid_lit, fixed, Bool.and_true, Bool.true_and]
  cases script.valid <;> rfl

/-- The editor drops the sections it should, and what is installed comes back out, only on a tidy
    configuration and with a script that can be encoded; with a script that does not hold the end of
    the region that is enough. -/
theorem ownOnly_tidy (verifyToml : Text → Bool) (script text : Text) (f : ConfigFile) :
    (OwnOnly verifyToml script text f →
      Tidy text ∧ (Writes verifyToml script text f → script.valid = true ∨ text = [])) ∧
    (Tidy text ∧ (Writes verifyToml script text f →
        script.valid = true ∧ ¬ endMarker <:+: script ∨ script.valid = false ∧ text = []) →
      OwnOnly verifyToml script text f) := by
  have quiet_empty : Quiet [] := ⟨by decide +kernel, rfl⟩
  constructor
  · rintro ⟨exact_, back⟩
    refine ⟨(stripsExactly_iff text).mp exact_, fun writes => ?_⟩
    have quiet := writes.2.1.quiet exact_
    obtain ⟨n, before, shape, same, -, -⟩ := installedText_eq quiet script
    cases valid : script.valid with
    | true => exact .inl rfl
    | false =>
      refine .inr ?_
      have text_ : text.valid = true := by
        rw [← writes.1]
        exact readConfig_valid f
      have broken := (installedText_valid script text_ same).1
      have written : (install verifyToml script f).2 = (f.backup.write (installedText script text)).2 :=
        install_writes writes
      have empty : readConfig (install verifyToml script f).2 = [] := by
        rw [written, shape]
        unfold ConfigFile.write
        rw [dif_neg (by rw [broken, valid]; decide)]
        rfl
      obtain ⟨m, restored⟩ := back writes.1 writes.2.1
      rw [uninstall_quiet (by rw [empty]; exact quiet_empty), empty, writes.1] at restored
      exact (List.append_eq_nil_iff.mp restored.symm).1
  · rintro ⟨tidy, fine⟩
    have exact_ := (stripsExactly_iff text).mpr tidy
    refine ⟨exact_, fun read clean => ?_⟩
    have quiet := clean.quiet exact_
    cases goes : f.directory && verifyToml (installedText script text) with
    | false =>
      have kept : readConfig (install verifyToml script f).2 = readConfig f := by
        refine install_refused ?_
        rw [read]
        exact Bool.and_eq_false_iff.mp goes
      refine ⟨0, ?_⟩
      rw [uninstall_quiet (by rw [kept, read]; exact quiet), kept]
      exact (List.append_nil _).symm
    | true =>
      rw [Bool.and_eq_true] at goes
      have writes : Writes verifyToml script text f := ⟨read, clean, goes.1, goes.2⟩
      obtain ⟨n, before, shape, same, quiet', ended⟩ := installedText_eq quiet script
      have text_ : text.valid = true := by
        rw [← read]
        exact readConfig_valid f
      have valids := installedText_valid script text_ same
      unfold GivesBack
      rw [install_writes writes, shape, read]
      rcases fine writes with ⟨valid, open_⟩ | ⟨broken, rfl⟩
      · have flat : Rune.char '\r' ∉ before := by
          rw [same, List.mem_append, not_or]
          refine ⟨by rw [← read]; exact readConfig_flat f, fun member => ?_⟩
          exact absurd (List.eq_of_mem_replicate member) (by decide)
        refine ⟨n, ?_⟩
        unfold ConfigFile.write
        rw [dif_pos (by rw [valids.1, valid]), ← same]
        refine readConfig_uninstall ?_ valids.2 flat
        show uninstalledText (Text.universal (before ++ renderBlock script)) = before
        rw [Text.universal_append flat, uninstalledText_block quiet' ended open_]
      · refine ⟨0, ?_⟩
        unfold ConfigFile.write
        rw [dif_neg (by rw [valids.1, broken]; decide)]
        rw [uninstall_quiet (by exact quiet_empty)]
        rfl

/-- A hook of a script whose name only ends in that of the managed one. -/
def foreignHook : Text :=
  Text.lit "[[hooks]]\nevent = \"Stop\"\ncommand = \"python3 /home/me/my_autosave_session.py\"\n"

def foreignFile : ConfigFile where
  content := some foreignHook
  directory := true
  backups := []
  decodes := by rintro _ ⟨⟩; decide +kernel

/-- Another hook is dropped. -/
theorem foreign_hook_dropped :
    ¬ OwnOnly (fun _ => true) (Text.lit "/home/me/autosave_session.py") foreignHook foreignFile := by
  intro own
  have flags := own.1.1
  have differ : (List.range foreignHook.lines.length).map (isDropped foreignHook) ≠
      legacyFlags foreignHook := by decide +kernel
  exact differ flags

end Installer

end Cmpath
