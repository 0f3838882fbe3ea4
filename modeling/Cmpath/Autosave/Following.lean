import Cmpath.Autosave.Coverage

/-!
# Following a file

A wire file that only grows, read by passes of any kind among any other calls (`Follows`). Up to the
line its cursor names every event of the file is in a group whose text is stored, and a pass that is not
stopped leaves no event out (`no_transcript_loss`).
-/

namespace Cmpath
open Lib Lib.Txn

namespace Autosave

variable {py : Python} {cfg : Config} {clk : Nat → Clock} {db left : Db} {id : Int} {key : Text}
  {complete torn more : List Line} {size : Int}

/-! ## What a cursor tells -/

/-- What is before the line of a cursor is covered, and a cursor of a pass that got through the file as
    it is now is at its last event. -/
structure Cursor.Tells (py : Python) (complete : List Line) (size : Int) (db : Db) (id : Int)
    (c : Cursor) : Prop where
  covered : ∀ f ∈ fragments py complete, f.line ≤ c.line → Covered py (fragments py complete) db id f
  within : c.line ≤ complete.length
  sized : c.size ≤ size
  ended : c.complete = true → c.size = size → ∀ f ∈ fragments py complete, f.line ≤ c.line

/-- The rows of the task stay. -/
theorem Cursor.Tells.rows {c : Cursor} (h : c.Tells py complete size db id)
    (rows : ∀ m ∈ db.messages, m.taskId = id → m ∈ left.messages) : c.Tells py complete size left id :=
  ⟨fun f member far => (h.covered f member far).rows rows, h.within, h.sized, h.ended⟩

/-- The file grows. -/
theorem Cursor.Tells.grow {c : Cursor} {larger : Int} (h : c.Tells py complete size db id)
    (formed : ∀ l ∈ complete, l.Formed py) (le : size ≤ larger) (longer : more ≠ [] → size < larger) :
    c.Tells py (complete ++ more) larger db id := by
  have known := h.within
  have sized := h.sized
  obtain ⟨new, split, beyond⟩ : ∃ new, fragments py (complete ++ more) = fragments py complete ++ new ∧
      ∀ f ∈ new, complete.length < f.line := fragments_append formed
  refine ⟨fun f member far => ?_, ?_, by omega, fun through same f member => ?_⟩
  · rw [split] at member ⊢
    rcases List.mem_append.mp member with old | new_
    · exact (h.covered f old far).mono (fun _ row _ => row) new
    · have after := beyond f new_
      omega
  · rw [List.length_append]
    omega
  · by_cases none_ : more = []
    · subst none_
      rw [List.append_nil] at member
      exact h.ended through (by omega) f member
    · have grown := longer none_
      omega

/-- What the cursors of a file tell in a state. -/
def Reached (py : Python) (key : Text) (complete : List Line) (size : Int) (db : Db) (id : Int)
    (s : State) : Prop :=
  ∀ c : Cursor, (key, c.json) ∈ s.cursors → c.Tells py complete size db id

namespace Reached

variable {s s' : State}

theorem rows (h : Reached py key complete size db id s)
    (rows : ∀ m ∈ db.messages, m.taskId = id → m ∈ left.messages) :
    Reached py key complete size left id s := fun c member => (h c member).rows rows

theorem grow {larger : Int} (h : Reached py key complete size db id s)
    (formed : ∀ l ∈ complete, l.Formed py) (le : size ≤ larger) (longer : more ≠ [] → size < larger) :
    Reached py key (complete ++ more) larger db id s := fun c member => (h c member).grow formed le longer

/-- The next call reads the cursors of the last one. -/
theorem reread {e : Int} (h : Reached py key complete size db id s)
    (cursors : ∀ c ∈ s.cursors, ∃ cursor : Cursor, c.2 = cursor.json) :
    Reached py key complete size db id (s.reread py cfg e) := by
  intro c member
  obtain ⟨⟨k, value⟩, stored, same⟩ := mem_reread_cursors member
  obtain ⟨cursor, held⟩ := cursors _ stored
  dsimp only at same held
  subst held
  rw [Cursor.held_json] at same
  obtain ⟨rfl, equal_⟩ := Prod.mk.inj same
  obtain rfl := Cursor.json_inj equal_
  have tells := h cursor stored
  exact ⟨tells.covered, tells.within, tells.sized, tells.ended⟩

end Reached

/-- The file as a pass over it finds it. -/
structure Transcript.Reads (key : Text) (complete torn : List Line) (size : Int) (t : Transcript)
    (f : WireFile) : Prop where
  file : t.file = some f
  path : cursorKey t.path = key
  lines : f.lines = complete ++ torn
  size : f.size = size

/-- A pass over the file covers it up to the line it scans to. -/
theorem Reached.covers {ledger : List (Int × Turn)} {t : Transcript} {f : WireFile} {mid : Db}
    {s : State} {start : Int} {reset : Bool} {done : Scan} (reached : Reached py key complete size mid id s)
    (p : Planned py cfg t f (some id) mid s start reset done) (reads : t.Reads key complete torn size f)
    (formed : ∀ l ∈ complete, l.Formed py) (rest : Torn torn) (recorded : Recorded ledger py mid id s)
    (old : ∀ m ∈ mid.messages, m.taskId = id → m ∈ left.messages)
    (stored : ∀ r ∈ done.rows, ∃ m ∈ left.messages, m.taskId = id ∧ m.content = r.prepared.content) :
    done.Covers py complete left id := by
  rcases p.begins recorded with zero | ⟨cursor, member, same⟩
  · refine p.covers reads.lines formed rest recorded (fun f member passed => ?_) (by omega) old stored
    have after := (wireEventsFrom_lines 0 0 complete f member).1
    omega
  · rw [reads.path] at member
    have tells := reached cursor member
    have within_ := tells.within
    refine p.covers reads.lines formed rest recorded (fun f member passed => ?_) (by omega) old stored
    exact (tells.covered f member (by omega)).rows old

/-- What a call leaves of what the cursors tell; a pass over the file finds it as it is. -/
theorem Reached.change {ledger : List (Int × Turn)} {saves : Int → Turn → Prop}
    {scans : Transcript → Prop} {s s' : State} (h : Reached py key complete size db id s)
    (c : Change py saves scans db left id s s') (recorded : Recorded ledger py db id s)
    (formed : ∀ l ∈ complete, l.Formed py) (rest : Torn torn)
    (own : ∀ t f, scans t → t.file = some f → cursorKey t.path = key →
      t.Reads key complete torn size f) : Reached py key complete size left id s' := by
  have old : Reached py key complete size left id s := h.rows fun m => c.old
  cases c with
  | keep => exact old
  | turn => exact reread old recorded.cursors
  | @pass cfg t f start reset done mid new e read file planned same messages rows _ _ =>
    have cursors : ∀ c ∈ (s.after cfg t f start done (some e)).cursors,
        ∃ cursor : Cursor, c.2 = cursor.json := by
      intro c member
      rcases mem_after_cursors member with old | ⟨_, rfl⟩
      · exact recorded.cursors c old
      · exact ⟨done.cursor f, cursorOf_eq f done⟩
    refine reread (fun c member => ?_) cursors
    rcases mem_after_cursors member with before | ⟨_, equal_⟩
    · exact old c before
    · obtain ⟨named, equal_⟩ := Prod.mk.inj equal_
      have reads := own t f read file named.symm
      obtain rfl : c = done.cursor f := Cursor.json_inj (equal_.trans (cursorOf_eq f done))
      have recorded' : Recorded ledger py mid id s :=
        ⟨recorded.seen, same ▸ recorded.hashes, recorded.cursors, recorded.keys,
          same ▸ recorded.evidence, recorded.anchored⟩
      have reached : Reached py key complete size mid id s := h.rows fun m row _ => same ▸ row
      have covers : done.Covers py complete left id := by
        refine reached.covers planned reads formed rest recorded' (fun m row _ => ?_) fun r listed_ => ?_
        · rw [messages]
          exact List.mem_append_left _ (same ▸ row)
        · obtain ⟨m, stored, own, _, content, _⟩ := stored_of_rows rows listed_
          refine ⟨m, ?_, own, content⟩
          rw [messages]
          exact List.mem_append_right _ stored
      exact ⟨covers.covered, covers.within, le_of_eq reads.size,
        fun through _ => covers.whole (by simpa [Scan.cursor] using through)⟩

/-! ## Runs over a file -/

/-- The stores that passes over a growing file lead to, among any other calls: its complete lines are
    well formed and stay, the last one may be torn, and it gets larger where a line is completed. -/
inductive Follows (py : Python) (key : Text) : List Line → List Line → Int → Db → Prop
  | start {complete torn : List Line} (size : Int) (formed : ∀ l ∈ complete, l.Formed py)
      (rest : Torn torn) : Follows py key complete torn size .empty
  | grow {complete torn : List Line} {size : Int} {db : Db} (run : Follows py key complete torn size db)
      {more rest : List Line} {larger : Int} (formed : ∀ l ∈ more, l.Formed py) (torn : Torn rest)
      (le : size ≤ larger) (longer : more ≠ [] → size < larger) :
      Follows py key (complete ++ more) rest larger db
  | call {complete torn : List Line} {size : Int} {db : Db} (run : Follows py key complete torn size db)
      (c : Call) (other : ∀ g ∈ Call.gives py.toHost c db, g.stored.2 ≠ stateKey) :
      Follows py key complete torn size ((callStep c).next py.toHost db)
  | turn {complete torn : List Line} {size : Int} {db : Db} (run : Follows py key complete torn size db)
      (cfg : Config) (clk : Nat → Clock) (t : Turn) :
      Follows py key complete torn size (saveTurn py cfg clk t db).2
  | pass {complete torn : List Line} {size : Int} {db : Db} (run : Follows py key complete torn size db)
      (cfg : Config) (clk : Nat → Clock) (t : Transcript)
      (own : ∀ f, t.file = some f → cursorKey t.path = key → t.Reads key complete torn size f) :
      Follows py key complete torn size (ingestTranscript py cfg clk t db).2

/-- What holds in every store of such a run. -/
structure Followed (py : Python) (key : Text) (complete torn : List Line) (size : Int) (db : Db) :
    Prop where
  formed : ∀ l ∈ complete, l.Formed py
  rest : Torn torn
  inv : ∃ ledger, Inv py ledger db
  reached : ∀ id, (db.task? id).isSome → Reached py key complete size db id (stateOf py db id)

/-- What a call leaves of the run. -/
theorem Followed.moved {ledger more : List (Int × Turn)} {saves : Int → Turn → Prop}
    {scans : Transcript → Prop} (h : Followed py key complete torn size db) (inv : Inv py ledger db)
    (moves : Moves py saves scans db left) (turns : ledger ⊆ more)
    (said : ∀ id t, saves id t → (id, t) ∈ more)
    (own : ∀ t f, scans t → t.file = some f → cursorKey t.path = key →
      t.Reads key complete torn size f) : Followed py key complete torn size left := by
  refine ⟨h.formed, h.rest, ⟨more, inv.moved moves turns said⟩, ?_⟩
  have both := moves.keeps
    (P := fun db id s => Recorded ledger py db id s ∧ Reached py key complete size db id s)
    (Q := Reached py key complete size) (fun _ => ⟨.empty, nofun⟩)
    (fun c old => old.2.change c old.1 h.formed h.rest own)
    fun id here => ⟨inv.recorded id here, h.reached id here⟩
  exact both

theorem Follows.followed (run : Follows py key complete torn size db) :
    Followed py key complete torn size db := by
  induction run with
  | start size formed rest =>
    exact ⟨formed, rest, ⟨[], .start⟩, fun _ here => absurd here Bool.false_ne_true⟩
  | grow _ formed torn le longer ih =>
    refine ⟨fun l member => ?_, torn, ih.inv, fun id here => (ih.reached id here).grow ih.formed le longer⟩
    rcases List.mem_append.mp member with old | new
    · exact ih.formed l old
    · exact formed l new
  | call _ c other ih =>
    obtain ⟨ledger, inv⟩ := ih.inv
    have moves : Moves py (fun _ _ => False) (fun _ => False) _ _ := inv.legible.call c other
    exact ih.moved inv moves (List.Subset.refl _) nofun nofun
  | turn _ cfg clk t ih =>
    obtain ⟨ledger, inv⟩ := ih.inv
    exact ih.moved inv (inv.legible.turn cfg clk t) (List.subset_append_left ledger _)
      (fun _ _ said => List.mem_append_right _ said) nofun
  | pass _ cfg clk t own ih =>
    obtain ⟨ledger, inv⟩ := ih.inv
    refine ih.moved inv (inv.legible.pass cfg clk t) (List.Subset.refl _) nofun fun u f same => ?_
    subst same
    exact own f

/-! ## Nothing is lost -/

/-- A pass over the file that writes. -/
theorem Followed.pass {t : Transcript} {f : WireFile} {r : IngestReport}
    (h : Followed py key complete torn size db) (write : cfg.write = true)
    (reads : t.Reads key complete torn size f) (run : ingestTranscript py cfg clk t db = (.ok r, left)) :
    ∃ id, r.taskId = some id ∧
      (∀ f ∈ fragments py complete, f.line ≤ r.scannedTo →
        Covered py (fragments py complete) left id f) ∧
      ((∀ n, t.late n = false) → r.added < passCap →
        ∀ f ∈ fragments py complete, f.line ≤ r.scannedTo) := by
  obtain ⟨ledger, inv⟩ := h.inv
  obtain ⟨id, new, mid, project, here, task, passed⟩ := inv.legible.ingest_ok write reads.file run
  have mine : Followed py key complete torn size mid := by
    have moves : Moves py (fun _ _ => False) (fun _ => False) db mid := (inv.legible.project project).1
    exact h.moved inv moves (List.Subset.refl _) nofun nofun
  have recorded := (inv.found project).recorded id here
  have reached := mine.reached id here
  refine ⟨id, task, ?_⟩
  cases passed with
  | @unchanged e _ still read same =>
    -- the file is as it was when a pass got through it
    subst still
    obtain ⟨start, further, through, sized⟩ := resumeAt_unchanged same
    rcases recorded.entry read with zero | ⟨cursor, member, rfl⟩
    · omega
    · rw [reads.path] at member
      have tells := reached cursor member
      have equal_ : cursor.size = size := by
        rw [← reads.size]
        simpa [Cursor.entry, isNull, equal] using sized
      rw [start]
      exact ⟨tells.covered, fun _ _ => tells.ended through equal_⟩
  | @scanned start reset done _ planned upTo added old stored =>
    have covers : done.Covers py complete left id :=
      reached.covers planned reads h.formed h.rest recorded (fun m row _ => old m row) stored
    rw [upTo, added]
    exact ⟨covers.covered, fun calm room => covers.whole (scan_through planned.scan calm room)⟩

/-- **Nothing of a transcript is lost.** In every run over a file that only grows, every event up to the
    line a recorded cursor names is in a group of the file whose text the task stores; and so is every
    event up to the line a writing pass reports, which is every event of the file unless the pass was
    stopped by its deadline or the cap. -/
theorem no_transcript_loss (run : Follows py key complete torn size db) :
    (∀ id s e, state py (some id) db = .ok s →
      Entry.ofJson ((Json.obj s.cursors).get? key) = .ok e →
      CollisionFree py (fragments py complete) db →
      ∀ f ∈ fragments py complete, f.line ≤ e.start → Saved py (fragments py complete) db id f) ∧
    ∀ cfg clk t f r left, cfg.write = true → t.Reads key complete torn size f →
      ingestTranscript py cfg clk t db = (.ok r, left) →
      CollisionFree py (fragments py complete) left →
      ∃ id, r.taskId = some id ∧
        (∀ f ∈ fragments py complete, f.line ≤ r.scannedTo →
          Saved py (fragments py complete) left id f) ∧
        ((∀ n, t.late n = false) → r.added < passCap →
          ∀ f ∈ fragments py complete, Saved py (fragments py complete) left id f) := by
  have followed := run.followed
  constructor
  · intro id s e read cursor free f member before
    obtain ⟨ledger, inv⟩ := followed.inv
    have here := ((state_ok_iff inv.kept).mp read).1
    obtain same : stateOf py db id = s := Except.ok.inj ((inv.legible.state here).symm.trans read)
    have recorded := inv.recorded id here
    have reached := followed.reached id here
    rw [same] at recorded reached
    rcases recorded.entry cursor with zero | ⟨c, listed_, rfl⟩
    · have after := (wireEventsFrom_lines 0 0 complete f member).1
      omega
    · exact ((reached c listed_).covered f member before).saved free
  · intro cfg clk t f r left write reads pass_ free
    obtain ⟨id, task, covered, whole⟩ := followed.pass write reads pass_
    refine ⟨id, task, fun f member far => (covered f member far).saved free,
      fun calm room f member => (covered f member (whole calm room f member)).saved free⟩

/-- A file with a prompt, and the start of the next line. -/
def tornPrompted : Transcript :=
  { path := ⟨true, [Text.lit "w", Text.lit "wire.jsonl"]⟩
    file := some ⟨[.event hiPrompt, .broken], .int 1, 70, Text.lit "d7fcf6d8d79aa752"⟩ }

/-- A group of one fragment is that fragment. -/
theorem GroupOf.single {x f : Fragment} {g : Cluster Fragment} (h : GroupOf [x] f g) : g = ⟨x, []⟩ := by
  obtain ⟨before, after, split⟩ := h.piece
  obtain ⟨first, more⟩ := g
  have count := congrArg List.length split
  simp only [Cluster.items, List.length_append, List.length_cons, List.length_nil] at count
  obtain rfl : before = [] := List.length_eq_zero_iff.mp (by omega)
  obtain rfl : more = [] := List.length_eq_zero_iff.mp (by omega)
  obtain ⟨rfl, _⟩ := List.cons.inj split
  rfl

/-- The first pass over that file stores its prompt. -/
theorem torn_prompt_kept :
    ∃ r left id, ingestTranscript asciiPython {} (fun _ => plainClock) tornPrompted .empty = (.ok r, left) ∧
      r.taskId = some id ∧ ∀ f ∈ fragments asciiPython [.event hiPrompt],
        Saved asciiPython (fragments asciiPython [.event hiPrompt]) left id f := by
  have ran : (ingestTranscript asciiPython {} (fun _ => plainClock) tornPrompted
        .empty).1.toOption.map (·.added) = some 1 ∧
      (ingestTranscript asciiPython {} (fun _ => plainClock) tornPrompted
        .empty).2.messages.map (·.content) = [Text.lit "hi"] := by decide +kernel
  have content : ∀ x ∈ fragments asciiPython [.event hiPrompt],
      ((messageOf ⟨x, []⟩).prepared asciiPython).map (·.content) = some (Text.lit "hi") := by
    decide +kernel
  have run : Follows asciiPython (cursorKey tornPrompted.path) [.event hiPrompt] [.broken] 70 .empty :=
    .start 70 (fun l member => by rw [List.mem_singleton.mp member]; exact fun _ => rfl) (.inr ⟨[], rfl⟩)
  cases result : ingestTranscript asciiPython {} (fun _ => plainClock) tornPrompted .empty with
  | mk answer left =>
    rw [result] at ran
    obtain ⟨r, returned, added⟩ := Option.map_eq_some_iff.mp ran.1
    cases answer with
    | error e => cases returned
    | ok r' =>
      obtain rfl : r' = r := Option.some.inj returned
      have free : CollisionFree asciiPython (fragments asciiPython [.event hiPrompt]) left := by
        intro m stored f g p group made _
        have listed_ : m.content ∈ [Text.lit "hi"] := by
          rw [← ran.2]
          exact List.mem_map_of_mem stored
        obtain ⟨x, single⟩ : ∃ x, fragments asciiPython [.event hiPrompt] = [x] := ⟨_, rfl⟩
        rw [single] at group content
        have same := content x List.mem_cons_self
        rw [← group.single, made] at same
        rw [List.mem_singleton.mp listed_]
        exact (Option.some.inj same).symm
      obtain ⟨id, task, _, whole⟩ := (no_transcript_loss run).2 {} (fun _ => plainClock) tornPrompted _ r'
        left rfl ⟨rfl, rfl, rfl, rfl⟩ result free
      refine ⟨r', left, id, rfl, task, whole (fun _ => rfl) ?_⟩
      rw [added]
      decide

end Autosave

end Cmpath
