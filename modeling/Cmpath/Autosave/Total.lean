import Cmpath.Autosave.Following
import Cmpath.Autosave.Offers

/-!
# Passes that do not raise

In every run of autosave a pass over a file returns as long as no line of the file is nested too deeply
or has a prompt that cannot be iterated over, and what would be stored of it can be encoded
(`ingestion_total`). A line that breaks the condition stops the pass each time
(`prompt_without_parts`).
-/

namespace Cmpath
open Lib Lib.Txn

namespace Autosave

variable {py : Python} {cfg : Config} {clk : Nat → Clock} {db left : Db} {id : Int}

/-! ## Texts that can be encoded -/

theorem strip_subset (t : Text) : t.strip ⊆ t := by
  unfold Text.strip
  intro r member
  rw [List.mem_reverse] at member
  have inside := (List.dropWhile_sublist _).subset member
  rw [List.mem_reverse] at inside
  exact (List.dropWhile_sublist _).subset inside

theorem marker_valid (kind : Kind) : (marker kind).valid = true := by
  cases kind <;> decide

theorem rule_mark (host : Host) (kind : Kind) : (rule host kind).mark = marker kind := by
  cases kind <;> rfl

/-- Redaction keeps a text encodable. -/
theorem redact_valid {host : Host} {t : Text} (h : t.valid = true) : (redact host t).valid = true := by
  have step : ∀ (kind : Kind) {t : Text}, t.valid = true → Text.valid ((rule host kind).sub t) = true := by
    intro kind t valid
    have whole : Text.valid (t ++ marker kind) = true := by
      rw [Text.valid_append, valid, marker_valid]
      rfl
    refine Text.valid_of_subset (fun r member => List.mem_append.mpr ?_) whole
    rw [← rule_mark host]
    exact Rule.mem_sub member
  have fold : ∀ (kinds : List Kind) {t : Text}, t.valid = true →
      Text.valid (kinds.foldl (fun text kind => (rule host kind).sub text) t) = true := by
    intro kinds
    induction kinds with
    | nil => exact fun valid => valid
    | cons kind rest ih => exact fun valid => ih (step kind valid)
  exact fold redactions h

/-- What is prepared of a text that can be encoded can be bound. -/
theorem prepared_valid {t : Text} {limit : Nat} {p : Prepared} (h : prepareText py t limit = some p)
    (valid : t.valid = true) : p.content.valid = true := by
  unfold prepareText at h
  dsimp only at h
  split at h
  · cases h
  · obtain rfl := Option.some.inj h
    have redacted : Text.valid (redact py.toHost t) = true := redact_valid valid
    refine Text.valid_of_subset (fun r member => ?_) redacted
    exact strip_subset _ (List.mem_of_mem_take member)

theorem digest_valid (hex : ∀ text, (py.sha1 text).valid = true) (text : Text) :
    (contentHash py text).valid = true :=
  Text.valid_of_subset (List.take_subset _ _) (hex _)

/-! ## Lines that can be read -/

/-- A line that does not make a pass raise, neither as it is read nor as it is stored. -/
def Line.Readable (py : Python) : Line → Prop
  | .blank | .broken | .huge => True
  | .event value =>
    (isText "turn.prompt" (field "type" value) = true →
      (promptParts? (field "input" value)).isSome = true) ∧
      ∀ line items, wireItems? py value line = some items → ∀ f ∈ items, f.text.valid = true
  | .deep => False

theorem wireItems_isSome {value : Json} (line : Nat)
    (parts : isText "turn.prompt" (field "type" value) = true →
      (promptParts? (field "input" value)).isSome = true) :
    ∃ items, wireItems? py value line = some items := by
  unfold wireItems?
  dsimp only
  split
  · rename_i prompt
    obtain ⟨listed_, given⟩ := Option.isSome_iff_exists.mp (parts prompt)
    rw [given]
    exact ⟨_, rfl⟩
  · split
    · exact ⟨_, rfl⟩
    · split <;> exact ⟨_, rfl⟩

theorem wireEventsFrom_readable {lines : List Line} (readable : ∀ l ∈ lines, l.Readable py) (start : Int)
    (n : Nat) : (wireEventsFrom py start n lines).2 = none ∧
      ∀ f ∈ (wireEventsFrom py start n lines).1, f.text.valid = true := by
  induction lines generalizing n with
  | nil => exact ⟨rfl, nofun⟩
  | cons line rest ih =>
    have later := ih (fun l member => readable l (List.mem_cons_of_mem _ member)) (n + 1)
    by_cases skipped : (n + 1 : Int) ≤ start
    · rw [wireEventsFrom_skip skipped]
      exact later
    · rw [wireEventsFrom_read skipped]
      have here := readable line List.mem_cons_self
      unfold lineEvents
      cases line with
      | blank => exact later
      | broken | huge => exact ⟨rfl, nofun⟩
      | deep => exact here.elim
      | event value =>
        obtain ⟨items, made⟩ := wireItems_isSome (n + 1) here.1
        dsimp only
        rw [made]
        refine ⟨later.1, fun f member => ?_⟩
        rcases List.mem_append.mp member with first | second
        · exact here.2 _ _ made f first
        · exact later.2 f second

/-- The messages of such a file can be encoded, and reading it does not raise. -/
theorem wireCoalesced_readable {lines : List Line} (readable : ∀ l ∈ lines, l.Readable py)
    (start : Int) : (wireCoalesced py start lines).2 = none ∧
      ∀ w ∈ (wireCoalesced py start lines).1, w.text.valid = true := by
  obtain ⟨calm, valid⟩ := wireEventsFrom_readable readable start 0
  have events : (wireEvents py start lines).2 = none := calm
  refine ⟨calm, fun w member => ?_⟩
  unfold wireCoalesced at member
  dsimp only at member
  rw [events, if_neg (by simp), coalesce_eq] at member
  obtain ⟨⟨first, more⟩, group, rfl⟩ := List.mem_map.mp member
  have inside : ∀ f ∈ first :: more, f.text.valid = true := by
    intro f listed_
    refine valid f ?_
    have split := (clusters_clustering oneMessage (wireEvents py start lines).1).items
    have whole : f ∈ (wireEvents py start lines).1 := by
      rw [← split]
      exact List.mem_flatMap.mpr ⟨_, group, listed_⟩
    exact whole
  have grown : ∀ (more : List Fragment) (m : WireMessage), m.text.valid = true →
      (∀ f ∈ more, f.text.valid = true) → Text.valid (more.foldl WireMessage.add m).text = true := by
    intro more
    induction more with
    | nil => exact fun _ valid _ => valid
    | cons f rest ih =>
      intro m valid all
      refine ih (m.add f) ?_ fun g member => all g (List.mem_cons_of_mem _ member)
      show Text.valid (m.text ++ f.text) = true
      rw [Text.valid_append, valid, all f List.mem_cons_self]
      rfl
  exact grown more first.alone (inside first List.mem_cons_self)
    fun f member => inside f (List.mem_cons_of_mem _ member)

theorem scan_total (known : Text → Bool) (late : Nat → Bool) (n : Nat) (begun : Scan)
    (messages : List WireMessage) : ∃ done, scan py known late none n begun messages = .ok done := by
  induction messages generalizing n begun with
  | nil => exact ⟨begun, rfl⟩
  | cons m rest ih =>
    unfold scan
    split
    · exact ⟨_, rfl⟩
    · split
      · exact ih _ _
      · dsimp only
        split
        · exact ⟨_, rfl⟩
        · exact ih _ _

/-! ## Calls that return -/

/-- What a pass stores beside the texts of the file can be encoded. -/
structure Transcript.Encodable (t : Transcript) (f : WireFile) : Prop where
  path : (cursorKey t.path).valid = true
  agent : (agentName t.path).valid = true
  session : Text.valid (t.sessionId.getD []) = true
  mtime : f.mtime.sound = true
  head : f.head.valid = true

theorem Transcript.Encodable.source {t : Transcript} {f : WireFile} (h : t.Encodable f) (r : Row) :
    (t.source r).sound = true := by
  have line : r.line.sound = true := by
    unfold Row.line
    split
    · rfl
    · show Text.valid (Text.ofNat r.first ++ Text.lit "-" ++ Text.ofNat r.last) = true
      rw [Text.valid_append, Text.valid_append, Text.valid_ofNat, Text.valid_ofNat, Text.valid_lit]
      rfl
  have valid : ∀ text : String, Text.valid (Text.lit text) = true := Text.valid_lit
  have session := h.session
  have path := h.path
  have agent := h.agent
  unfold Transcript.source
  split <;> simp [Json.sound, Json.soundFields, valid, session, path, agent, line]

/-- A pass leaves a state that can be bound. -/
theorem State.Spelled.passed {s : State} {t : Transcript} {f : WireFile} {start : Int} {done : Scan}
    (h : s.Spelled) (encodable : t.Encodable f)
    (digests : ∀ r ∈ done.rows, r.prepared.digest.valid = true) :
    (s.passed cfg t f start done).Sound cfg := by
  refine sound_payload.mpr ⟨soundItems_iff.mpr fun j member => ?_,
    soundItems_iff.mpr fun j member => ?_, soundFields_iff.mpr fun c member => ?_⟩
  · exact soundItems_iff.mp h.seen j (mem_lastOf member)
  · rcases mem_hashed (mem_lastOf member) with old | ⟨r, listed_, rfl⟩
    · exact soundItems_iff.mp h.hashes j old
    · exact digests r listed_
  · have listed_ := mem_lastOf member
    unfold State.passed at listed_
    dsimp only at listed_
    have old : c ∈ s.cursors → c.1.valid = true ∧ c.2.sound = true := soundFields_iff.mp h.cursors c
    split at listed_
    · rcases mem_assign listed_ with before | rfl
      · exact old before
      · have valid : ∀ text : String, Text.valid (Text.lit text) = true := Text.valid_lit
        have mtime := encodable.mtime
        have head := encodable.head
        exact ⟨encodable.path, by simp [cursorOf, Json.sound, Json.soundFields, valid, mtime, head]⟩
    · exact old listed_

/-- The first line is chosen without a failure where the size of the cursor is a number. -/
theorem resumeAt_total (rebuild : Bool) {e : Entry} (f : WireFile)
    (size : e.start = 0 ∨ ∃ n : Int, e.size = .int n) : ∃ r, resumeAt rebuild e f = .ok r := by
  unfold resumeAt
  dsimp only
  split
  · exact ⟨_, rfl⟩
  · split
    · exact ⟨_, rfl⟩
    · split
      · rename_i further
        rcases size with zero | ⟨n, number⟩
        · omega
        · rw [number]
          split
          · exact ⟨_, rfl⟩
          · simp only [longerThan, bind, Except.bind]
            split <;> exact ⟨_, rfl⟩
      · exact ⟨_, rfl⟩

/-- A survey of a file that can be read does not fail. -/
theorem survey_total {ledger : List (Int × Turn)} {t : Transcript} {f : WireFile} {taskId : Option Int}
    {s : State} (read : state py taskId db = .ok s) (recorded : Recorded ledger py db id s)
    (readable : ∀ l ∈ f.lines, l.Readable py) : ∃ v, survey py t f taskId db = .ok v := by
  have entry : ∃ e, Entry.ofJson ((Json.obj s.cursors).get? (cursorKey t.path)) = .ok e ∧
      (e.start = 0 ∨ ∃ n : Int, e.size = .int n) := by
    cases listed_ : (Json.obj s.cursors).get? (cursorKey t.path) with
    | none => exact ⟨_, rfl, .inl rfl⟩
    | some value =>
      obtain ⟨cursor, same⟩ := recorded.cursors _ (mem_of_get? listed_)
      dsimp only at same
      subst same
      exact ⟨_, cursor.entry_ofJson, .inr ⟨cursor.size, rfl⟩⟩
  obtain ⟨e, known, size⟩ := entry
  obtain ⟨resume, chosen⟩ := resumeAt_total t.rebuild f size
  unfold survey
  rw [read]
  simp only [bind, Except.bind]
  rw [known]
  dsimp only
  rw [chosen]
  cases resume with
  | unchanged start => exact ⟨_, rfl⟩
  | scan start reset =>
    dsimp only
    rw [(wireCoalesced_readable readable start).1]
    have scans : ∃ done, scan py (fun digest => listed digest s.hashes ||
        (if reset = true then storedWireDigests py taskId (cursorKey t.path) db else []).contains digest)
        t.late none 0 ⟨[], start, false⟩ (wireCoalesced py start f.lines).1 = .ok done :=
      scan_total _ _ _ _ _
    obtain ⟨done, ran⟩ := scans
    rw [ran]
    exact ⟨_, rfl⟩

/-- The batch of a survey of such a file goes through. -/
theorem storable_of_readable {ledger : List (Int × Turn)} {t : Transcript} {f : WireFile} {s : State}
    {start : Int} {reset : Bool} {done : Scan} (hex : ∀ text, (py.sha1 text).valid = true)
    (inv : Inv py ledger db) (recorded : Recorded ledger py db id s) (spelled : s.Spelled)
    (here : (db.task? id).isSome) (p : Planned py cfg t f (some id) db s start reset done)
    (readable : ∀ l ∈ f.lines, l.Readable py) (encodable : t.Encodable f) :
    PassStorable cfg t f s start done db id := by
  have regular := Regular.of_reachable inv.kept.reachable
  have rows : ∀ r ∈ done.rows, ∃ w ∈ (wireCoalesced py start f.lines).1,
      w.prepared py = some r.prepared := by
    intro r member
    obtain ⟨_, w, at_, _, made⟩ := scan_looked p.scan member
    exact ⟨w, List.mem_of_getElem? at_, row_prepared made⟩
  have sound : (s.passed cfg t f start done).Sound cfg := by
    refine spelled.passed encodable fun r member => ?_
    obtain ⟨w, _, made⟩ := rows r member
    rw [prepared_digest made]
    exact digest_valid hex _
  refine ⟨fun r member => ?_, fun _ => sound, fun _ e last => ?_⟩
  · obtain ⟨w, listed_, made⟩ := rows r member
    have valid := (wireCoalesced_readable readable start).2 w listed_
    refine ⟨prepared_spoken made ?_, prepared_valid made valid, encodable.source r⟩
    unfold limitOf
    split <;> decide
  · obtain ⟨m, stored, same, own⟩ := recorded.evidence e last
    have given := regular.told.2 m stored
    refine ⟨⟨regular.positive here, here⟩, ⟨by omega, m, ?_, own⟩, ?_⟩
    · rw [← same]
      exact regular.found stored
    · exact sound_payload.mpr (sound_payload.mp sound)

/-- What a caller gives a pass beside the file. -/
structure Transcript.Sendable (py : Python) (t : Transcript) (f : WireFile) (db : Db) : Prop where
  encodable : t.Encodable f
  named : projectTask? py db t.project = none → ProjectNameable py t.project

/-- A pass over a file that can be read returns. -/
theorem Inv.ingest_total {ledger : List (Int × Turn)} {t : Transcript}
    (hex : ∀ text, (py.sha1 text).valid = true) (inv : Inv py ledger db) (cfg : Config)
    (clk : Nat → Clock) (readable : ∀ f, t.file = some f → ∀ l ∈ f.lines, l.Readable py)
    (sendable : ∀ f, t.file = some f → t.Sendable py f db) :
    ∃ r left, ingestTranscript py cfg clk t db = (.ok r, left) := by
  cases file : t.file with
  | none =>
    unfold ingestTranscript
    rw [file]
    exact ⟨_, _, rfl⟩
  | some f =>
    have readable := readable f file
    obtain ⟨encodable, named⟩ := sendable f file
    cases write : cfg.write with
    | false =>
      have dry : cfg = cfg.dry := by
        cases cfg
        cases write
        rfl
      have surveyed : ∃ v, survey py t f (knownTask py db t.project) db = .ok v := by
        unfold knownTask
        cases known : projectTask? py db t.project with
        | none =>
          have unheld : Recorded [] py db 0 State.empty := .empty
          exact survey_total rfl unheld readable
        | some task =>
          have here := projectTask_here known
          exact survey_total (inv.legible.state here) (inv.recorded task.id here) readable
      obtain ⟨v, ran⟩ := surveyed
      rw [dry, ingest_dry file, ran]
      exact ⟨_, _, rfl⟩
    | true =>
      have wet : cfg = cfg.wet := by
        cases cfg
        cases write
        rfl
      rw [wet]
      rcases project_wet py (clk 0) t.project (Regular.of_reachable inv.kept.reachable) with
        ⟨_, id, new, mid, project, found⟩ | ⟨unnamed, _⟩
      · have inv' := inv.found (atomic_ok.mp project)
        have recorded := inv'.recorded id found.here
        obtain ⟨v, ran⟩ := survey_total (t := t) (inv'.legible.state found.here) recorded readable
        rw [ingest_wet file project ran]
        have same : stateOf py mid id = v.state :=
          Except.ok.inj ((inv'.legible.state found.here).symm.trans (survey_state ran))
        unfold Survey.plan
        rcases survey_ok ran with ⟨none_, _⟩ | ⟨done, scanned, planned⟩
        · rw [none_]
          exact ⟨_, _, rfl⟩
        · rw [scanned]
          dsimp only
          split
          · exact ⟨_, _, rfl⟩
          · have planned : Planned py cfg.wet t f (some id) mid v.state v.start v.reset done := planned
            have storable := storable_of_readable hex inv' (same ▸ recorded)
              (same ▸ inv'.spelled id found.here) found.here planned readable encodable
            obtain ⟨r, left, committed⟩ := (commitPass_total found.regular found.here).mpr storable
            exact ⟨r, left, atomic_ok.mpr committed⟩
      · exact absurd named unnamed

/-- **A pass returns, and no line keeps another from being stored, where every line can be read.** In
    every run of autosave a pass over a file returns as long as each line can be read and what is stored
    beside the texts can be encoded. In every run over a file that only grows such a pass has stored
    every event up to the line it reports, and every event before the first line that is not JSON unless
    it was stopped by its deadline or the cap. -/
theorem ingestion_total (hex : ∀ text, (py.sha1 text).valid = true) :
    (∀ ledger db, Run py ledger db → ∀ cfg clk t,
      (∀ f, t.file = some f → ∀ l ∈ f.lines, l.Readable py) →
      (∀ f, t.file = some f → t.Sendable py f db) →
        ∃ r left, ingestTranscript py cfg clk t db = (.ok r, left)) ∧
    ∀ key complete torn size db, Follows py key complete torn size db → ∀ cfg clk t f,
      cfg.write = true → t.Reads key complete torn size f → (∀ l ∈ f.lines, l.Readable py) →
      t.Sendable py f db →
        ∃ r left id, ingestTranscript py cfg clk t db = (.ok r, left) ∧ r.taskId = some id ∧
          (∀ f ∈ fragments py complete, f.line ≤ r.scannedTo →
            Covered py (fragments py complete) left id f) ∧
          ((∀ n, t.late n = false) → r.added < passCap →
            ∀ f ∈ fragments py complete, Covered py (fragments py complete) left id f) := by
  constructor
  · intro ledger db run cfg clk t readable sendable
    exact run.inv.ingest_total hex cfg clk readable sendable
  · intro key complete torn size db run cfg clk t f write reads readable sendable
    have followed := run.followed
    obtain ⟨ledger, inv⟩ := followed.inv
    have same : ∀ g, t.file = some g → g = f := fun g file =>
      Option.some.inj (file.symm.trans reads.file)
    obtain ⟨r, left, ran⟩ := inv.ingest_total hex cfg clk (fun g file => same g file ▸ readable)
      fun g file => same g file ▸ sendable
    obtain ⟨id, task, covered, whole⟩ := followed.pass write reads ran
    exact ⟨r, left, id, ran, task, covered,
      fun calm room f member => covered f member (whole calm room f member)⟩

/-- The first pass over a file with a prompt and the start of a line returns. -/
theorem torn_prompt_read :
    ∃ r left id, ingestTranscript asciiPython {} (fun _ => plainClock) tornPrompted .empty = (.ok r, left) ∧
      r.taskId = some id ∧ ∀ f ∈ fragments asciiPython [.event hiPrompt], f.line ≤ r.scannedTo →
        Covered asciiPython (fragments asciiPython [.event hiPrompt]) left id f := by
  have hex : ∀ text, (asciiPython.sha1 text).valid = true := fun _ => Text.valid_lit _
  have run : Follows asciiPython (cursorKey tornPrompted.path) [.event hiPrompt] [.broken] 70 .empty :=
    .start 70 (fun l member => by rw [List.mem_singleton.mp member]; exact fun _ => rfl)
      (.inr ⟨[], rfl⟩)
  have readable : ∀ l ∈ [Line.event hiPrompt, .broken], l.Readable asciiPython := by
    simp only [List.forall_mem_cons, List.not_mem_nil, false_imp_iff, implies_true, and_true]
    refine ⟨⟨fun _ => rfl, fun line items made f member => ?_⟩, trivial⟩
    obtain rfl := Option.some.inj made
    rw [List.mem_singleton.mp member]
    have text : Text.valid (Text.join (Text.lit "\n") (promptBlocks
        [.obj [(Text.lit "type", .str (Text.lit "text")), (Text.lit "text", .str (Text.lit "hi"))]])) = true := by
      decide
    exact text
  have sendable : tornPrompted.Sendable asciiPython
      ⟨[.event hiPrompt, .broken], .int 1, 70, Text.lit "d7fcf6d8d79aa752"⟩ .empty :=
    ⟨⟨by decide +kernel, by decide +kernel, by decide, rfl, by decide⟩,
      fun _ => ⟨by decide +kernel, by decide +kernel⟩⟩
  obtain ⟨r, left, id, ran, task, covered, _⟩ := (ingestion_total hex).2 _ _ _ _ _ run {}
    (fun _ => plainClock) tornPrompted _ rfl ⟨rfl, rfl, rfl, rfl⟩ readable sendable
  exact ⟨r, left, id, ran, task, covered⟩

/-- A file whose first prompt has a number in place of its parts. -/
def numberPrompted : Transcript :=
  { path := ⟨true, [Text.lit "w", Text.lit "wire.jsonl"]⟩
    file := some ⟨[.event (.obj [(Text.lit "type", .str (Text.lit "turn.prompt")), (Text.lit "input", .int 5)]),
      .event hiPrompt], .int 1, 94, Text.lit "0b2f3a3f6f3c9f10"⟩ }

/-- A pass over it raises and stores nothing of the other prompt. -/
theorem prompt_without_parts :
    (¬ ∃ r left, ingestTranscript asciiPython {} (fun _ => plainClock) numberPrompted .empty = (.ok r, left)) ∧
      (ingestTranscript asciiPython {} (fun _ => plainClock) numberPrompted .empty).2.messages = [] := by
  have ran : (ingestTranscript asciiPython {} (fun _ => plainClock) numberPrompted
        .empty).1.toOption.map (·.added) = none ∧
      (ingestTranscript asciiPython {} (fun _ => plainClock) numberPrompted
        .empty).2.messages.map (·.content) = [] := by decide +kernel
  refine ⟨?_, List.map_eq_nil_iff.mp ran.2⟩
  rintro ⟨r, left, result⟩
  rw [result] at ran
  cases ran.1

end Autosave

end Cmpath
