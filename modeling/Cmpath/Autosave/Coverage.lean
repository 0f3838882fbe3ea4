import Cmpath.Autosave.Coalescing
import Cmpath.Autosave.Run

/-!
# What a pass covers

A fragment of a wire file is covered where the task has a row with the digest of a group of neighbours
it is in (`Covered`). No fragment is blank once it is prepared (`messageOf_prepared`), so a pass covers
every one up to the line it scans to, whatever it is stopped by (`Planned.covers`).
-/

namespace Cmpath
open Lib Lib.Txn

namespace Autosave

variable {py : Python} {cfg : Config} {clk : Nat → Clock} {db : Db} {id : Int}

/-! ## Nothing is prepared away -/

/-- A text with something beside white space. -/
def Spoken (t : Text) : Prop := ∃ r ∈ t, r.isStripped = false

theorem spoken_iff {t : Text} : t.strip ≠ [] ↔ Spoken t := by
  have both : t.strip = (t.dropWhile Rune.isStripped).rdropWhile Rune.isStripped := rfl
  unfold Spoken
  rw [both, Ne, List.rdropWhile_eq_nil_iff]
  constructor
  · intro some_
    by_contra none_
    refine some_ fun r member => ?_
    have stripped : ∀ r ∈ t, r.isStripped = true := by
      intro r member
      by_contra other
      exact none_ ⟨r, member, by simpa using other⟩
    exact stripped r ((List.dropWhile_sublist _).subset member)
  · rintro ⟨r, member, other⟩ all
    have gone : t.dropWhile Rune.isStripped = [] := by
      cases left : t.dropWhile Rune.isStripped with
      | nil => rfl
      | cons c rest =>
        have first := List.head?_dropWhile_not Rune.isStripped t
        rw [left] at first all
        have hit := all c List.mem_cons_self
        simp only [List.head?_cons] at first
        rw [hit] at first
        cases first
    have hit := List.dropWhile_eq_nil_iff.mp gone r member
    rw [other] at hit
    cases hit

theorem Spoken.append_left {t : Text} (h : Spoken t) (u : Text) : Spoken (t ++ u) := by
  obtain ⟨r, member, other⟩ := h
  exact ⟨r, List.mem_append_left _ member, other⟩

/-- A text that is not blank is not blank once it is redacted. -/
theorem redact_spoken {t : Text} (h : Spoken t) : Spoken (redact py.toHost t) := by
  have step : ∀ (kind : Kind) {t : Text}, Spoken t → Spoken ((rule py.toHost kind).sub t) := by
    intro kind t spoken
    rcases Rule.sub_marked (r := rule py.toHost kind) t with marked | same
    · have mark : (Rune.char '[') ∈ (rule py.toHost kind).mark := by
        cases kind <;> exact List.mem_cons_self
      exact ⟨_, marked _ mark, by decide⟩
    · rw [same]
      exact spoken
  have fold : ∀ (kinds : List Kind) {t : Text}, Spoken t →
      Spoken (kinds.foldl (fun text kind => (rule py.toHost kind).sub text) t) := by
    intro kinds
    induction kinds with
    | nil => exact fun spoken => spoken
    | cons kind rest ih => exact fun spoken => ih (step kind spoken)
  exact fold redactions h

/-- A text that is not blank is prepared. -/
theorem prepared_of_spoken {t : Text} (h : Spoken t) (limit : Nat) :
    ∃ p, prepareText py t limit = some p := by
  have some_ : (redact py.toHost t).strip ≠ [] := spoken_iff.mpr (redact_spoken h)
  unfold prepareText
  dsimp only
  rw [if_neg (by simpa using some_)]
  exact ⟨_, rfl⟩

theorem spoken?_spoken {value : Json} {t : Text} (h : spoken? value = some t) : Spoken t := by
  cases value with
  | str s =>
    unfold spoken? at h
    dsimp only at h
    split at h
    · cases h
    · rename_i some_
      obtain rfl := Option.some.inj h
      exact spoken_iff.mp (by simpa using some_)
  | _ => cases h

theorem paragraph_spoken {header : Text} (h : Spoken header) (lines : List Text) :
    Spoken (paragraph (header :: lines)) := by
  unfold paragraph Text.join
  cases lines with
  | nil =>
    rw [List.intercalate_singleton]
    exact h.append_left _
  | cons line rest =>
    rw [List.intercalate_cons_cons, List.append_assoc, List.append_assoc]
    exact h.append_left _

/-- Every fragment has a text that is not blank. -/
theorem wireItems_spoken {event : Json} {line : Nat} {items : List Fragment}
    (h : wireItems? py event line = some items) : ∀ f ∈ items, Spoken f.text := by
  have inner : ∀ inner, ∀ f ∈ innerItems py inner line, Spoken f.text := by
    intro inner f member
    unfold innerItems at member
    dsimp only at member
    split at member
    · split at member
      · cases member
      · split at member
        · cases member
        · rename_i text said
          rw [List.mem_singleton.mp member]
          exact spoken?_spoken said
    · split at member
      · rw [List.mem_singleton.mp member]
        unfold toolCallText
        exact paragraph_spoken ⟨.char 't', by simp [Text.lit], by decide⟩ _
      · split at member
        · rw [List.mem_singleton.mp member]
          have header : ∀ isError : Bool,
              Spoken (Text.lit (if isError then "tool result: error" else "tool result")) := by
            intro isError
            cases isError <;> exact ⟨.char 't', by simp [Text.lit], by decide⟩
          unfold toolResultText
          exact paragraph_spoken (header _) _
        · cases member
  unfold wireItems? at h
  dsimp only at h
  split at h
  · obtain ⟨parts, _, rfl⟩ := Option.map_eq_some_iff.mp h
    intro f member
    split at member
    · cases member
    · rename_i some_
      rw [List.mem_singleton.mp member]
      cases blocks : promptBlocks parts with
      | nil =>
        rw [blocks] at some_
        exact absurd rfl some_
      | cons block rest =>
        have first : Spoken block := by
          have listed_ : block ∈ promptBlocks parts := by
            rw [blocks]
            exact List.mem_cons_self
          unfold promptBlocks at listed_
          obtain ⟨part, _, made⟩ := List.mem_filterMap.mp listed_
          split at made
          · exact spoken?_spoken made
          · cases made
        unfold Text.join
        cases rest with
        | nil =>
          rw [List.intercalate_singleton]
          exact first
        | cons next rest =>
          rw [List.intercalate_cons_cons, List.append_assoc]
          exact first.append_left _
  · split at h
    · obtain rfl := Option.some.inj h
      exact inner _
    · split at h
      · obtain rfl := Option.some.inj h
        exact inner _
      · obtain rfl := Option.some.inj h
        exact nofun

theorem wireEventsFrom_spoken (start : Int) (n : Nat) (lines : List Line) :
    ∀ f ∈ (wireEventsFrom py start n lines).1, Spoken f.text := by
  induction lines generalizing n with
  | nil => exact nofun
  | cons line rest ih =>
    by_cases skipped : (n + 1 : Int) ≤ start
    · rw [wireEventsFrom_skip skipped]
      exact ih (n + 1)
    · rw [wireEventsFrom_read skipped]
      unfold lineEvents
      cases line with
      | blank => exact ih (n + 1)
      | broken | huge | deep => exact nofun
      | event value =>
        dsimp only
        cases made : wireItems? py value (n + 1) with
        | none => exact nofun
        | some items =>
          intro f member
          rcases List.mem_append.mp member with here | later
          · exact wireItems_spoken made f here
          · exact ih (n + 1) f later

/-- The message of a group of fragments is prepared. -/
theorem messageOf_prepared {g : Cluster Fragment} (h : Spoken g.first.text) :
    ∃ p, (messageOf g).prepared py = some p := by
  obtain ⟨first, more⟩ := g
  have grown : ∀ (more : List Fragment) (m : WireMessage), Spoken m.text →
      Spoken (more.foldl WireMessage.add m).text := by
    intro more
    induction more with
    | nil => exact fun _ spoken => spoken
    | cons f rest ih => exact fun m spoken => ih (m.add f) (spoken.append_left _)
  exact prepared_of_spoken (grown more first.alone h) _

/-! ## How far a pass gets -/

/-- A scan takes some of the messages, the first ones, and is at the last line of the last of them;
    it takes all of them unless it stops early. -/
theorem scan_cut {known : Text → Bool} {late : Nat → Bool} {raises : Option Failure} {n : Nat}
    {begun done : Scan} {messages : List WireMessage}
    (h : scan py known late raises n begun messages = .ok done) :
    ∃ k ≤ messages.length, done.rows = begun.rows ++ (messages.take k).filterMap (·.row py known) ∧
      done.scannedTo = (((messages.take k).getLast?).map fun m => (m.last : Int)).getD begun.scannedTo ∧
      (done.stoppedEarly = false → k = messages.length) := by
  induction messages generalizing n begun with
  | nil =>
    refine ⟨0, Nat.le_refl _, ?_⟩
    unfold scan at h
    cases raises with
    | some e => cases h
    | none =>
      obtain rfl := Except.ok.inj h
      exact ⟨by simp, rfl, fun _ => rfl⟩
  | cons m rest ih =>
    have next : ∀ {begun' : Scan}, scan py known late raises (n + 1) begun' rest = .ok done →
        begun'.rows = begun.rows ++ (m.row py known).toList → begun'.scannedTo = m.last →
        ∃ k ≤ (m :: rest).length,
          done.rows = begun.rows ++ ((m :: rest).take k).filterMap (·.row py known) ∧
          done.scannedTo =
            ((((m :: rest).take k).getLast?).map fun m => (m.last : Int)).getD begun.scannedTo ∧
          (done.stoppedEarly = false → k = (m :: rest).length) := by
      intro begun' later rows at_
      obtain ⟨k, le, rows', scanned, whole⟩ := ih later
      refine ⟨k + 1, by simpa using le, ?_, ?_, fun through => ?_⟩
      · rw [rows', rows, List.take_succ_cons, List.append_assoc]
        cases made : m.row py known <;> simp [made]
      · rw [scanned, at_, List.take_succ_cons, List.getLast?_cons]
        cases (rest.take k).getLast? <;> rfl
      · rw [whole through, List.length_cons]
    unfold scan at h
    by_cases stops : late n = true
    · rw [if_pos stops] at h
      obtain rfl := Except.ok.inj h
      refine ⟨0, Nat.zero_le _, by simp, rfl, fun through => ?_⟩
      cases through
    · rw [if_neg stops] at h
      cases made : m.row py known with
      | none =>
        rw [made] at h
        exact next h (by simp [made]) rfl
      | some r =>
        rw [made] at h
        dsimp only at h
        split at h
        · obtain rfl := Except.ok.inj h
          refine ⟨1, by simp, by simp [made], rfl, fun through => ?_⟩
          cases through
        · exact next h (by simp [made]) rfl

/-- Before the deadline and below the cap no scan stops early. -/
theorem scan_through {known : Text → Bool} {late : Nat → Bool} {raises : Option Failure} {n : Nat}
    {begun done : Scan} {messages : List WireMessage}
    (h : scan py known late raises n begun messages = .ok done) (calm : ∀ i, late i = false)
    (room : done.rows.length < passCap) : done.stoppedEarly = begun.stoppedEarly := by
  induction messages generalizing n begun with
  | nil =>
    unfold scan at h
    cases raises with
    | some e => cases h
    | none =>
      obtain rfl := Except.ok.inj h
      rfl
  | cons m rest ih =>
    unfold scan at h
    rw [calm n, if_neg Bool.false_ne_true] at h
    cases made : m.row py known with
    | none =>
      rw [made] at h
      have later := ih h
      exact later
    | some r =>
      rw [made] at h
      dsimp only at h
      split at h
      · rename_i full
        obtain rfl := Except.ok.inj h
        dsimp only at room
        omega
      · have later := ih h
        exact later

/-! ## Files that only grow -/

/-- A line that is blank or a wire event whose fragments can be read. -/
def Line.Formed (py : Python) : Line → Prop
  | .blank => True
  | .event value => ∀ line, (wireItems? py value line).isSome
  | _ => False

/-- After the complete lines there is nothing, or a line that is not JSON, such as the start of one. -/
def Torn (rest : List Line) : Prop := rest = [] ∨ ∃ later, rest = .broken :: later

/-- What is read of a file whose complete lines are well formed. -/
theorem wireEventsFrom_formed {lines torn : List Line} (formed : ∀ l ∈ lines, l.Formed py)
    (rest : Torn torn) {start : Int} {n : Nat} (within_ : start ≤ (n + lines.length : Nat)) :
    wireEventsFrom py start n (lines ++ torn) =
      ((wireEventsFrom py 0 n lines).1.filter fun f => decide (start < f.line), none) := by
  induction lines generalizing n with
  | nil =>
    rcases rest with rfl | ⟨later, rfl⟩
    · rfl
    · rw [List.nil_append, wireEventsFrom_read (by simp at within_; omega)]
      rfl
  | cons line lines ih =>
    have later := ih (n := n + 1) (fun l member => formed l (List.mem_cons_of_mem _ member))
      (by rw [List.length_cons] at within_; omega)
    have here := formed line List.mem_cons_self
    have whole : ∃ items, (∀ f ∈ items, f.line = n + 1) ∧
        ∀ rest, lineEvents py line (n + 1) rest = (items ++ rest.1, rest.2) := by
      cases line with
      | blank => exact ⟨[], nofun, fun _ => rfl⟩
      | event value =>
        obtain ⟨items, made⟩ := Option.isSome_iff_exists.mp (here (n + 1))
        refine ⟨items, wireItems_lines made, fun rest => ?_⟩
        unfold lineEvents
        dsimp only
        rw [made]
      | broken | huge | deep => exact here.elim
    obtain ⟨items, at_, reads⟩ := whole
    have from_ : wireEventsFrom py 0 n (line :: lines) =
        lineEvents py line (n + 1) (wireEventsFrom py 0 (n + 1) lines) :=
      wireEventsFrom_read (by omega) line lines
    rw [from_, reads, List.cons_append, List.filter_append]
    by_cases skipped : (n + 1 : Int) ≤ start
    · have gone : items.filter (fun f => decide (start < f.line)) = [] := by
        rw [List.filter_eq_nil_iff]
        intro f member
        rw [at_ f member, decide_eq_true_eq]
        omega
      rw [wireEventsFrom_skip skipped, later, gone, List.nil_append]
    · have kept : items.filter (fun f => decide (start < f.line)) = items := by
        rw [List.filter_eq_self]
        intro f member
        rw [at_ f member, decide_eq_true_eq]
        omega
      rw [wireEventsFrom_read skipped, reads, later, kept]

/-- The fragments of the complete lines. -/
def fragments (py : Python) (lines : List Line) : List Fragment := (wireEventsFrom py 0 0 lines).1

theorem fragments_sorted (lines : List Line) :
    (fragments py lines).Pairwise fun f g => f.line < g.line := wireEventsFrom_sorted 0 0 lines

/-- More complete lines add fragments at the end, of later lines. -/
theorem fragments_append {lines more : List Line} (formed : ∀ l ∈ lines, l.Formed py) :
    ∃ new, fragments py (lines ++ more) = fragments py lines ++ new ∧
      ∀ f ∈ new, lines.length < f.line := by
  have grown : ∀ (lines : List Line) (n : Nat), (∀ l ∈ lines, l.Formed py) →
      (wireEventsFrom py 0 n (lines ++ more)).1 =
        (wireEventsFrom py 0 n lines).1 ++ (wireEventsFrom py 0 (n + lines.length) more).1 := by
    intro lines
    induction lines with
    | nil => exact fun n _ => rfl
    | cons line rest ih =>
      intro n formed
      have later := ih (n + 1) fun l member => formed l (List.mem_cons_of_mem _ member)
      have here := formed line List.mem_cons_self
      rw [List.cons_append, wireEventsFrom_read (by omega), wireEventsFrom_read (by omega),
        List.length_cons, Nat.add_comm rest.length 1, ← Nat.add_assoc]
      unfold lineEvents
      cases line with
      | blank => exact later
      | event value =>
        obtain ⟨items, made⟩ := Option.isSome_iff_exists.mp (here (n + 1))
        dsimp only
        rw [made]
        dsimp only
        rw [later, List.append_assoc]
      | broken | huge | deep => exact here.elim
  refine ⟨_, grown lines 0 formed, fun f member => ?_⟩
  have after := (wireEventsFrom_lines 0 (0 + lines.length) more f member).1
  omega

/-- A fragment is at one of the lines. -/
theorem fragments_within {lines : List Line} : ∀ f ∈ fragments py lines, f.line ≤ lines.length := by
  have within_ : ∀ (lines : List Line) (n : Nat), ∀ f ∈ (wireEventsFrom py 0 n lines).1,
      f.line ≤ n + lines.length := by
    intro lines
    induction lines with
    | nil => exact fun _ => nofun
    | cons line rest ih =>
      intro n f member
      rw [wireEventsFrom_read (by omega)] at member
      have later : ∀ g ∈ (wireEventsFrom py 0 (n + 1) rest).1, g.line ≤ n + (line :: rest).length := by
        intro g member
        have le := ih (n + 1) g member
        rw [List.length_cons]
        omega
      unfold lineEvents at member
      cases line with
      | blank => exact later f member
      | broken | huge | deep => cases member
      | event value =>
        dsimp only at member
        cases made : wireItems? py value (n + 1) with
        | none =>
          rw [made] at member
          cases member
        | some items =>
          rw [made] at member
          rcases List.mem_append.mp member with here | rest
          · rw [wireItems_lines made f here, List.length_cons]
            omega
          · exact later f rest
  intro f member
  have le := within_ lines 0 f member
  omega

/-! ## What is covered -/

/-- Fragments of one key next to each other in the file, with this one among them. -/
structure GroupOf (fs : List Fragment) (f : Fragment) (g : Cluster Fragment) : Prop where
  member : f ∈ g.items
  piece : ∃ before after, fs = before ++ g.items ++ after
  whole : ∀ x ∈ g.more, oneMessage g.first x = true

/-- The task has a row with the digest of the message of a group of the fragment. -/
def Covered (py : Python) (fs : List Fragment) (db : Db) (id : Int) (f : Fragment) : Prop :=
  ∃ g p, GroupOf fs f g ∧ (messageOf g).prepared py = some p ∧
    ∃ m ∈ db.messages, m.taskId = id ∧ contentHash py m.content = p.digest

/-- The task has a row with the prepared text of a group of the fragment. -/
def Saved (py : Python) (fs : List Fragment) (db : Db) (id : Int) (f : Fragment) : Prop :=
  ∃ g p, GroupOf fs f g ∧ (messageOf g).prepared py = some p ∧
    ∃ m ∈ db.messages, m.taskId = id ∧ m.content = p.content

/-- No row has the digest of a message of the file with another content. -/
def CollisionFree (py : Python) (fs : List Fragment) (db : Db) : Prop :=
  ∀ m ∈ db.messages, ∀ f g p, GroupOf fs f g → (messageOf g).prepared py = some p →
    contentHash py m.content = p.digest → m.content = p.content

theorem Covered.saved {fs : List Fragment} {f : Fragment} (h : Covered py fs db id f)
    (free : CollisionFree py fs db) : Saved py fs db id f := by
  obtain ⟨g, p, group, made, m, stored, own, same⟩ := h
  exact ⟨g, p, group, made, m, stored, own, free m stored f g p group made same⟩

theorem Covered.mono {fs : List Fragment} {left : Db} {f : Fragment} (h : Covered py fs db id f)
    (rows : ∀ m ∈ db.messages, m.taskId = id → m ∈ left.messages) (new : List Fragment) :
    Covered py (fs ++ new) left id f := by
  obtain ⟨g, p, ⟨member, ⟨before, after, split⟩, whole⟩, made, m, stored, own, same⟩ := h
  refine ⟨g, p, ⟨member, ⟨before, after ++ new, ?_⟩, whole⟩, made, m, rows m stored own, own, same⟩
  rw [split]
  simp

theorem Covered.rows {fs : List Fragment} {left : Db} {f : Fragment} (h : Covered py fs db id f)
    (rows : ∀ m ∈ db.messages, m.taskId = id → m ∈ left.messages) : Covered py fs left id f := by
  have grown := h.mono rows []
  rwa [List.append_nil] at grown

/-- The row of a message that is prepared is a new one or one the filter knows. -/
theorem row_cases (known : Text → Bool) {m : WireMessage} {p : Prepared}
    (made : m.prepared py = some p) :
    known p.digest = true ∨ ∃ r, m.row py known = some r ∧ r.prepared = p := by
  by_cases old : known p.digest = true
  · exact .inl old
  · refine .inr ⟨⟨m.first, m.last, m.role, p⟩, ?_, rfl⟩
    unfold WireMessage.row
    rw [made]
    exact if_neg old

theorem mem_of_get? {fields : List (Text × Json)} {key : Text} {value : Json}
    (h : (Json.obj fields).get? key = some value) : (key, value) ∈ fields := by
  obtain ⟨c, found, same⟩ := Option.map_eq_some_iff.mp h
  have named : c.1 = key := by simpa using List.find?_some found
  have entry : c = (key, value) := by rw [← named, ← same]
  rw [← entry]
  exact List.mem_of_find?_eq_some found

/-- What a pass reads of a cursor: nothing, or what a pass left. -/
theorem Recorded.entry {ledger : List (Int × Turn)} {s : State} {key : Text} {e : Entry}
    (recorded : Recorded ledger py db id s)
    (read : Entry.ofJson ((Json.obj s.cursors).get? key) = .ok e) :
    e.start = 0 ∨ ∃ cursor : Cursor, (key, cursor.json) ∈ s.cursors ∧ e = cursor.entry := by
  cases listed_ : (Json.obj s.cursors).get? key with
  | none =>
    rw [listed_] at read
    obtain rfl := Except.ok.inj read
    exact .inl rfl
  | some value =>
    rw [listed_] at read
    have member := mem_of_get? listed_
    obtain ⟨cursor, same⟩ := recorded.cursors _ member
    dsimp only at same
    subst same
    rw [Cursor.entry_ofJson] at read
    exact .inr ⟨cursor, member, (Except.ok.inj read).symm⟩

/-- A pass that scans begins at the start, or after the line of its cursor. -/
theorem resumeAt_scan {e : Entry} {f : WireFile} {rebuild reset : Bool} {start : Int}
    (h : resumeAt rebuild e f = .ok (.scan start reset)) : start = 0 ∨ start = e.start := by
  unfold resumeAt at h
  dsimp only at h
  split at h
  · cases h
    exact .inl rfl
  · split at h
    · cases h
      exact .inl rfl
    · split at h
      · split at h
        · cases h
        · obtain ⟨longer, _, h⟩ := except_bind_ok.mp h
          split at h
          · cases h
            exact .inr rfl
          · cases h
            exact .inl rfl
      · cases h
        exact .inr rfl

/-- A pass leaves a file alone that was read to its end and is as it was. -/
theorem resumeAt_unchanged {e : Entry} {f : WireFile} {rebuild : Bool} {start : Int}
    (h : resumeAt rebuild e f = .ok (.unchanged start)) :
    start = e.start ∧ 0 < start ∧ e.complete = true ∧
      (isNull e.size || equal e.size (.int f.size)) = true := by
  unfold resumeAt at h
  dsimp only at h
  split at h
  · cases h
  · split at h
    · cases h
    · split at h
      · rename_i further
        split at h
        · rename_i same
          cases h
          rw [Bool.and_eq_true, Bool.and_eq_true] at same
          exact ⟨rfl, further, same.1, same.2.2⟩
        · obtain ⟨longer, _, h⟩ := except_bind_ok.mp h
          split at h <;> cases h
      · cases h

/-- A choice of the first line is made from what is read of the cursor. -/
theorem resumed {value : Option Json} {f : WireFile} {rebuild : Bool} {r : Resume}
    (h : (Entry.ofJson value).toOption.bind (fun e => (resumeAt rebuild e f).toOption) = some r) :
    ∃ e, Entry.ofJson value = .ok e ∧ resumeAt rebuild e f = .ok r := by
  cases read : Entry.ofJson value with
  | error failure =>
    rw [read] at h
    cases h
  | ok e =>
    rw [read] at h
    refine ⟨e, rfl, ?_⟩
    cases chosen : resumeAt rebuild e f with
    | error failure =>
      rw [Except.toOption, Option.bind_some, chosen] at h
      cases h
    | ok r' =>
      rw [Except.toOption, Option.bind_some, chosen] at h
      exact congrArg Except.ok (Option.some.inj h)

/-- Where a pass that scans begins. -/
theorem Planned.begins {ledger : List (Int × Turn)} {t : Transcript} {f : WireFile} {mid : Db}
    {s : State} {start : Int} {reset : Bool} {done : Scan}
    (p : Planned py cfg t f (some id) mid s start reset done) (recorded : Recorded ledger py mid id s) :
    start = 0 ∨ ∃ cursor : Cursor, (cursorKey t.path, cursor.json) ∈ s.cursors ∧ start = cursor.line := by
  obtain ⟨e, read, chosen⟩ := resumed p.resume
  rcases resumeAt_scan chosen with zero | same
  · exact .inl zero
  · rcases recorded.entry read with zero | ⟨cursor, member, rfl⟩
    · exact .inl (same.trans zero)
    · exact .inr ⟨cursor, member, same⟩

/-- Sorted fragments are those up to a line and those after it. -/
theorem sorted_split {fs : List Fragment} (sorted : fs.Pairwise fun f g => f.line < g.line)
    (start : Int) :
    fs = (fs.filter fun f => decide ((f.line : Int) ≤ start)) ++
      fs.filter fun f => decide (start < f.line) := by
  induction fs with
  | nil => rfl
  | cons f rest ih =>
    obtain ⟨first, later⟩ := List.pairwise_cons.mp sorted
    by_cases passed : (f.line : Int) ≤ start
    · rw [List.filter_cons_of_pos (by simpa using passed),
        List.filter_cons_of_neg (by simpa using passed), List.cons_append, ← ih later]
    · have none_ : (f :: rest).filter (fun f => decide ((f.line : Int) ≤ start)) = [] := by
        rw [List.filter_eq_nil_iff]
        intro g member
        rw [decide_eq_true_eq]
        rcases List.mem_cons.mp member with rfl | after
        · exact passed
        · have less := first g after
          omega
      rw [none_, List.nil_append, List.filter_eq_self.mpr]
      intro g member
      rw [decide_eq_true_eq]
      rcases List.mem_cons.mp member with rfl | after
      · omega
      · have less := first g after
        omega

/-- A digest the filter of a pass knows is that of a row of the task. -/
theorem known_stored {key digest : Text} {s : State} {reset : Bool}
    (hashes : ∀ j ∈ s.hashes, ∃ m ∈ db.messages, m.taskId = id ∧ j = .str (contentHash py m.content))
    (known : (listed digest s.hashes ||
      (if reset then storedWireDigests py (some id) key db else []).contains digest) = true) :
    ∃ m ∈ db.messages, m.taskId = id ∧ contentHash py m.content = digest := by
  rcases Bool.or_eq_true_iff.mp known with window | rows
  · obtain ⟨m, stored, own, same⟩ := hashes _ (listed_iff.mp window)
    exact ⟨m, stored, own, (Json.str.inj same).symm⟩
  · rw [List.contains_iff_mem] at rows
    cases reset with
    | false => cases rows
    | true =>
      obtain ⟨m, stored, same⟩ := List.mem_map.mp rows
      obtain ⟨stored, own⟩ := List.mem_filter.mp stored
      rw [Bool.and_eq_true, Bool.and_eq_true, beq_iff_eq] at own
      exact ⟨m, stored, own.1.1, same⟩

/-- The line the first groups of the fragments after a line end at. -/
def endLine (start : Int) (l : List Fragment) (k : Nat) : Int :=
  (((((clusters oneMessage l).map messageOf).take k).getLast?).map fun m => (m.last : Int)).getD start

theorem endLine_zero (start : Int) (l : List Fragment) : endLine start l 0 = start := rfl

theorem endLine_succ {l : List Fragment} {k : Nat} {g : Cluster Fragment} (start : Int)
    (found : (clusters oneMessage l)[k]? = some g) : endLine start l (k + 1) = (messageOf g).last := by
  have taken : ((clusters oneMessage l).map messageOf)[k]? = some (messageOf g) := by
    rw [List.getElem?_map, found]
    rfl
  unfold endLine
  rw [List.take_add_one, taken, Option.toList_some, List.getLast?_concat]
  rfl

/-- What is no later than that line is in one of these groups. -/
theorem mem_take_of_le {l : List Fragment} (sorted : l.Pairwise fun f g => f.line < g.line) {k : Nat}
    (le : k ≤ (clusters oneMessage l).length) (start : Int) {f : Fragment} (member : f ∈ l)
    (after : start < f.line) (far : f.line ≤ endLine start l k) :
    ∃ g ∈ (clusters oneMessage l).take k, f ∈ g.items := by
  have both := clusters_split oneMessage l k
  rw [← both] at member
  rcases List.mem_append.mp member with here | later
  · exact List.mem_flatMap.mp here
  · exfalso
    cases k with
    | zero =>
      rw [endLine_zero] at far
      omega
    | succ k =>
      have found : (clusters oneMessage l)[k]? = some (clusters oneMessage l)[k] :=
        List.getElem?_eq_getElem (by omega)
      rw [← filter_after sorted found] at later
      have beyond := (List.mem_filter.mp later).2
      rw [decide_eq_true_eq] at beyond
      rw [endLine_succ start found] at far
      omega

/-- The groups end at the line they began after or at that of a fragment. -/
theorem endLine_mem {l : List Fragment} {k : Nat} (le : k ≤ (clusters oneMessage l).length)
    (start : Int) : endLine start l k = start ∨ ∃ f ∈ l, endLine start l k = f.line := by
  cases k with
  | zero => exact .inl rfl
  | succ k =>
    have found : (clusters oneMessage l)[k]? = some (clusters oneMessage l)[k] :=
      List.getElem?_eq_getElem (by omega)
    obtain ⟨before, f, items, last⟩ := messageOf_last (clusters oneMessage l)[k]
    refine .inr ⟨f, ?_, by rw [endLine_succ start found, last]⟩
    rw [← (clusters_clustering oneMessage l).items]
    exact List.mem_flatMap.mpr ⟨_, List.getElem_mem _, by rw [items]; simp⟩

/-- All groups end at the last fragment. -/
theorem le_endLine {l : List Fragment} (sorted : l.Pairwise fun f g => f.line < g.line) (start : Int)
    {f : Fragment} (member : f ∈ l) : f.line ≤ endLine start l (clusters oneMessage l).length := by
  obtain ⟨g, here, _⟩ := mem_clusters oneMessage member
  obtain ⟨k, count⟩ : ∃ k, (clusters oneMessage l).length = k + 1 :=
    Nat.exists_eq_add_one.mpr (List.length_pos_of_mem here)
  have found : (clusters oneMessage l)[k]? = some (clusters oneMessage l)[k] :=
    List.getElem?_eq_getElem (by omega)
  have none_ := filter_after sorted found
  rw [← count, List.drop_length, List.flatMap_nil, List.filter_eq_nil_iff] at none_
  have far := none_ f member
  rw [decide_eq_true_eq] at far
  rw [count, endLine_succ start found]
  omega

/-- A pass covers the file up to the line it scans to, and gets to the last event unless it is
    stopped. -/
structure Scan.Covers (py : Python) (complete : List Line) (left : Db) (id : Int) (done : Scan) :
    Prop where
  covered : ∀ f ∈ fragments py complete, f.line ≤ done.scannedTo →
    Covered py (fragments py complete) left id f
  within : done.scannedTo ≤ complete.length
  whole : done.stoppedEarly = false → ∀ f ∈ fragments py complete, f.line ≤ done.scannedTo

/-- A scan covers the file if what comes before its first line is covered and its filter knows only
    what is stored. -/
theorem scan_covers {known : Text → Bool} {late : Nat → Bool} {lines complete torn : List Line}
    {start : Int} {done : Scan} {left : Db}
    (h : scan py known late (wireCoalesced py start lines).2 0 ⟨[], start, false⟩
      (wireCoalesced py start lines).1 = .ok done) (split : lines = complete ++ torn)
    (formed : ∀ l ∈ complete, l.Formed py) (rest : Torn torn)
    (knows : ∀ digest, known digest = true →
      ∃ m ∈ left.messages, m.taskId = id ∧ contentHash py m.content = digest)
    (before : ∀ f ∈ fragments py complete, f.line ≤ start →
      Covered py (fragments py complete) left id f)
    (within_ : start ≤ complete.length)
    (stored : ∀ r ∈ done.rows, ∃ m ∈ left.messages, m.taskId = id ∧ m.content = r.prepared.content) :
    done.Covers py complete left id := by
  have events : wireEvents py start lines =
      ((fragments py complete).filter (fun f => decide (start < f.line)), none) := by
    rw [split]
    exact wireEventsFrom_formed formed rest (by omega)
  have messages : wireCoalesced py start lines =
      ((clusters oneMessage ((fragments py complete).filter fun f => decide (start < f.line))).map
        messageOf, none) := by
    unfold wireCoalesced
    rw [events]
    dsimp only
    rw [if_neg (by simp), coalesce_eq]
  obtain ⟨passed, inOrder⟩ : ∃ passed, fragments py complete =
      passed ++ (fragments py complete).filter fun f => decide (start < f.line) :=
    ⟨_, sorted_split (fragments_sorted complete) start⟩
  rw [messages] at h
  dsimp only at h
  obtain ⟨k, le, rows, scanned, whole⟩ := scan_cut h
  rw [List.nil_append] at rows
  rw [List.length_map] at le whole
  have sorted : ((fragments py complete).filter fun f => decide (start < f.line)).Pairwise
      fun f g => f.line < g.line := (fragments_sorted complete).sublist List.filter_sublist
  have mem_after : ∀ {f}, f ∈ (fragments py complete).filter (fun f => decide (start < f.line)) ↔
      f ∈ fragments py complete ∧ start < f.line := by simp
  generalize (fragments py complete).filter (fun f => decide (start < f.line)) = l at *
  replace scanned : done.scannedTo = endLine start l k := scanned
  have ends := endLine_mem le start
  rw [← scanned] at ends
  refine ⟨fun f member far => ?_, ?_, fun through f member => ?_⟩
  · by_cases early : f.line ≤ start
    · exact before f member early
    · obtain ⟨g, group, inside⟩ := mem_take_of_le sorted le start
        (mem_after.mpr ⟨member, by omega⟩) (by omega) (by omega)
      have listed_ := List.mem_of_mem_take group
      obtain ⟨earlier, later, piece⟩ := clusters_piece listed_
      have spoken : Spoken g.first.text := by
        have inside : g.first ∈ fragments py complete := by
          refine (mem_after.mp ?_).1
          rw [piece]
          exact List.mem_append_left _ (List.mem_append_right _ List.mem_cons_self)
        exact wireEventsFrom_spoken 0 0 complete _ inside
      obtain ⟨prepared, made⟩ := messageOf_prepared spoken
      refine ⟨g, prepared, ⟨inside, ⟨passed ++ earlier, later, ?_⟩,
        (clusters_clustering oneMessage l).whole g listed_⟩, made, ?_⟩
      · rw [inOrder, piece, List.append_assoc, List.append_assoc, List.append_assoc]
      · rcases row_cases known made with old_ | ⟨r, made', rfl⟩
        · exact knows _ old_
        · have member : r ∈ done.rows := by
            rw [rows, ← List.map_take]
            exact List.mem_filterMap.mpr ⟨_, List.mem_map_of_mem group, made'⟩
          obtain ⟨m, row, own, content⟩ := stored r member
          exact ⟨m, row, own, by rw [content]; exact (prepared_digest made).symm⟩
  · rcases ends with same | ⟨f, member, same⟩
    · omega
    · have at_ := fragments_within f (mem_after.mp member).1
      omega
  · by_cases early : f.line ≤ start
    · rcases ends with same | ⟨last, member, same⟩
      · omega
      · have after := (mem_after.mp member).2
        omega
    · have far := le_endLine sorted start (mem_after.mpr ⟨member, by omega⟩)
      rw [← whole through] at far
      omega

/-- A pass covers the file if what comes before its first line is covered. -/
theorem Planned.covers {ledger : List (Int × Turn)} {t : Transcript} {f : WireFile} {mid left : Db}
    {s : State} {start : Int} {reset : Bool} {done : Scan} {complete torn : List Line}
    (p : Planned py cfg t f (some id) mid s start reset done) (lines : f.lines = complete ++ torn)
    (formed : ∀ l ∈ complete, l.Formed py) (rest : Torn torn) (recorded : Recorded ledger py mid id s)
    (before : ∀ f ∈ fragments py complete, f.line ≤ start →
      Covered py (fragments py complete) left id f)
    (within_ : start ≤ complete.length)
    (old : ∀ m ∈ mid.messages, m.taskId = id → m ∈ left.messages)
    (stored : ∀ r ∈ done.rows, ∃ m ∈ left.messages, m.taskId = id ∧ m.content = r.prepared.content) :
    done.Covers py complete left id := by
  refine scan_covers p.scan lines formed rest (fun digest hit => ?_) before within_ stored
  obtain ⟨m, row, own, same⟩ := known_stored recorded.hashes hit
  exact ⟨m, old m row own, own, same⟩

end Autosave

end Cmpath
