import Cmpath.Autosave.Coverage
import Cmpath.Autosave.Offers
import Cmpath.Autosave.Repeats

/-!
# Reading a file again

Turns and passes on one store whose filters know what is stored store no content twice, and once a pass
got through a file that stays as it is no later pass over it adds a row (`rescans_never_duplicate`). A
list of digests that is too short lets a prompt in again (`prompt_stored_again`).
-/

namespace Cmpath
open Lib Lib.Txn

namespace Autosave

variable {py : Python} {cfg : Config} {clk : Nat → Clock} {db left : Db} {id : Int} {key : Text}
  {lines : List Line}

/-! ## Cursors at the end of a message -/

/-- The line the first messages after a line end at. -/
def lastLine (start : Int) (messages : List WireMessage) (k : Nat) : Int :=
  (((messages.take k).getLast?).map fun m => (m.last : Int)).getD start

theorem lastLine_zero (start : Int) (messages : List WireMessage) : lastLine start messages 0 = start := by
  simp [lastLine]

theorem lastLine_succ {messages : List WireMessage} {k : Nat} {m : WireMessage} (start : Int)
    (found : messages[k]? = some m) : lastLine start messages (k + 1) = m.last := by
  unfold lastLine
  rw [List.take_add_one, found, Option.toList_some, List.getLast?_concat]
  rfl

/-- What ends no later than the first messages is one of them. -/
theorem mem_take_of_last {messages : List WireMessage}
    (sorted : messages.Pairwise fun m w => m.last < w.last) {k : Nat} (le : k ≤ messages.length)
    (start : Int) {w : WireMessage} (member : w ∈ messages) (after : start < w.last)
    (far : w.last ≤ lastLine start messages k) : w ∈ messages.take k := by
  cases k with
  | zero =>
    rw [lastLine_zero] at far
    omega
  | succ k =>
    have found : messages[k]? = some messages[k] := List.getElem?_eq_getElem (by omega)
    rw [lastLine_succ start found] at far
    rw [← List.take_append_drop (k + 1) messages] at member
    rcases List.mem_append.mp member with here | later
    · exact here
    · rw [drop_eq_filter sorted found] at later
      have beyond := (List.mem_filter.mp later).2
      rw [decide_eq_true_eq] at beyond
      omega

theorem lastLine_mem {messages : List WireMessage} {k : Nat} (le : k ≤ messages.length) (start : Int) :
    lastLine start messages k = start ∨ ∃ m ∈ messages, lastLine start messages k = m.last := by
  cases k with
  | zero => exact .inl (lastLine_zero start messages)
  | succ k =>
    have found : messages[k]? = some messages[k] := List.getElem?_eq_getElem (by omega)
    exact .inr ⟨_, List.getElem_mem _, lastLine_succ start found⟩

/-- The task has a row with the digest of the message, if it has one. -/
def Held (py : Python) (db : Db) (id : Int) (w : WireMessage) : Prop :=
  ∀ p, w.prepared py = some p → ∃ m ∈ db.messages, m.taskId = id ∧ contentHash py m.content = p.digest

theorem Held.rows {w : WireMessage} (h : Held py db id w)
    (rows : ∀ m ∈ db.messages, m.taskId = id → m ∈ left.messages) : Held py left id w := by
  intro p made
  obtain ⟨m, stored, own, same⟩ := h p made
  exact ⟨m, rows m stored own, own, same⟩

/-- A cursor that another version of the parser left: it has another stamp, or none. -/
def Foreign (value : Json) : Prop :=
  ∃ fields, value = .obj fields ∧
    ∀ f ∈ fields, f.1 = Text.lit "parser" → ∃ n : Int, f.2 = .int n ∧ n ≠ parserVersion

theorem Foreign.held {value : Json} {repr : List Char → List Char} (h : Foreign value) :
    Foreign (value.held repr) := by
  obtain ⟨fields, rfl, other⟩ := h
  rw [Json.held]
  refine ⟨_, rfl, fun f member named => ?_⟩
  obtain ⟨g, stored, rfl⟩ := mem_heldFields.mp (mem_dict member)
  obtain ⟨n, value, ne⟩ := other g stored named
  exact ⟨n, by rw [value]; rfl, ne⟩

/-- A pass begins again where the cursor is of another version. -/
theorem Foreign.resume {value : Json} {e : Entry} {f : WireFile} {rebuild reset : Bool} {start : Int}
    (h : Foreign value) (read : Entry.ofJson (some value) = .ok e)
    (chosen : resumeAt rebuild e f = .ok (.scan start reset)) : start ≤ 0 := by
  obtain ⟨fields, rfl, other⟩ := h
  have stamp : equal (field "parser" (.obj fields)) (.int parserVersion) = false := by
    show equal (((fields.find? fun f => f.1 == Text.lit "parser").map Prod.snd).getD .null) _ = false
    cases found : fields.find? fun f => f.1 == Text.lit "parser" with
    | none => rfl
    | some f =>
      have named : f.1 = Text.lit "parser" := by simpa using List.find?_some found
      obtain ⟨n, value, ne⟩ := other f (List.mem_of_find?_eq_some found) named
      show equal f.2 _ = false
      rw [value]
      simpa [equal] using ne
  unfold Entry.ofJson at read
  obtain ⟨line, _, read⟩ := except_bind_ok.mp read
  obtain rfl := Except.ok.inj read
  unfold resumeAt at chosen
  dsimp only at chosen
  rw [stamp] at chosen
  split at chosen
  · cases chosen
    exact Int.le_refl 0
  · split at chosen
    · cases chosen
      exact Int.le_refl 0
    · rename_i old
      have early : ¬ 0 < line := by simpa using old
      rw [if_neg early] at chosen
      cases chosen
      omega

/-- The digests of a state are those of rows, and a cursor of the file is of another version or ends with a
    message up to which every message is held. -/
structure Aligned (py : Python) (key : Text) (lines : List Line) (db : Db) (id : Int) (s : State) :
    Prop where
  hashes : ∀ j ∈ s.hashes, ∃ m ∈ db.messages, m.taskId = id ∧ j = .str (contentHash py m.content)
  cursors : ∀ value, (key, value) ∈ s.cursors → Foreign value ∨ ∃ c : Cursor, value = c.json ∧
    (∃ w ∈ (wireCoalesced py 0 lines).1, c.line = w.last) ∧
      ∀ w ∈ (wireCoalesced py 0 lines).1, w.last ≤ c.line → Held py db id w

namespace Aligned

variable {s s' : State} {t : Transcript} {f : WireFile} {start : Int} {reset : Bool} {done : Scan}
  {mid : Db}

theorem empty : Aligned py key lines db id .empty := ⟨nofun, nofun⟩

/-- A pass over the file begins before its first message or after one, and holds every message up to
    there. -/
theorem begins (h : Aligned py key lines mid id s)
    (p : Planned py cfg t f (some id) mid s start reset done) (path : cursorKey t.path = key) :
    (start ≤ 0 ∨ ∃ w ∈ (wireCoalesced py 0 lines).1, start = w.last) ∧
      ∀ w ∈ (wireCoalesced py 0 lines).1, w.last ≤ start → Held py mid id w := by
  have first : start ≤ 0 → (start ≤ 0 ∨ ∃ w ∈ (wireCoalesced py 0 lines).1, start = w.last) ∧
      ∀ w ∈ (wireCoalesced py 0 lines).1, w.last ≤ start → Held py mid id w := by
    intro early
    refine ⟨.inl early, fun w member before => ?_⟩
    have after := (wireCoalesced_lines 0 lines w member).1
    omega
  obtain ⟨e, read, chosen⟩ := resumed p.resume
  rw [path] at read
  cases listed_ : (Json.obj s.cursors).get? key with
  | none =>
    rw [listed_] at read
    obtain rfl := Except.ok.inj read
    rcases resumeAt_scan chosen with zero | zero <;> exact first (le_of_eq zero)
  | some value =>
    rw [listed_] at read
    rcases h.cursors value (mem_of_get? listed_) with foreign | ⟨c, rfl, cut, held⟩
    · exact first (foreign.resume read chosen)
    · rw [Cursor.entry_ofJson] at read
      obtain rfl := Except.ok.inj read
      rcases resumeAt_scan chosen with zero | same
      · exact first (le_of_eq zero)
      · have same' : start = c.line := same
        rw [same']
        exact ⟨.inr cut, held⟩

end Aligned

/-- What a pass over the file leaves held. -/
structure Scan.Holds (py : Python) (lines : List Line) (left : Db) (id : Int) (start : Int) (done : Scan) :
    Prop where
  held : ∀ w ∈ (wireCoalesced py 0 lines).1, w.last ≤ done.scannedTo → Held py left id w
  moved : start < done.scannedTo → ∃ w ∈ (wireCoalesced py 0 lines).1, done.scannedTo = w.last
  whole : done.stoppedEarly = false → ∀ w ∈ (wireCoalesced py 0 lines).1, Held py left id w

/-- A pass over the file holds every message up to the line it scans to. -/
theorem Aligned.holds {s : State} {t : Transcript} {f : WireFile} {start : Int} {reset : Bool}
    {done : Scan} {mid : Db} (h : Aligned py key lines mid id s)
    (p : Planned py cfg t f (some id) mid s start reset done) (path : cursorKey t.path = key)
    (file : f.lines = lines) (old : ∀ m ∈ mid.messages, m.taskId = id → m ∈ left.messages)
    (stored : ∀ r ∈ done.rows, ∃ m ∈ left.messages, m.taskId = id ∧ m.content = r.prepared.content) :
    done.Holds py lines left id start := by
  obtain ⟨cut, before⟩ := h.begins p path
  obtain ⟨known, knows, scan⟩ : ∃ known : Text → Bool, (∀ digest, known digest = true →
      ∃ m ∈ mid.messages, m.taskId = id ∧ contentHash py m.content = digest) ∧
      scan py known t.late (wireCoalesced py start f.lines).2 0 ⟨[], start, false⟩
        (wireCoalesced py start f.lines).1 = .ok done :=
    ⟨_, fun _ hit => known_stored h.hashes hit, p.scan⟩
  rw [file, wireCoalesced_after cut] at scan
  dsimp only at scan
  obtain ⟨k, le, rows, scanned, whole⟩ := scan_cut scan
  rw [List.nil_append] at rows
  have sorted : ((wireCoalesced py 0 lines).1.filter fun m => decide (start < m.last)).Pairwise
      fun m w => m.last < w.last := (wireCoalesced_sorted 0 lines).sublist List.filter_sublist
  have mem_after : ∀ {w}, w ∈ (wireCoalesced py 0 lines).1.filter (fun m => decide (start < m.last)) ↔
      w ∈ (wireCoalesced py 0 lines).1 ∧ start < w.last := by simp
  generalize (wireCoalesced py 0 lines).1.filter (fun m => decide (start < m.last)) = later at *
  replace scanned : done.scannedTo = lastLine start later k := scanned
  have taken : ∀ w ∈ later.take k, Held py left id w := by
    intro w member prepared made
    rcases row_cases known made with old_ | ⟨r, made', rfl⟩
    · obtain ⟨m, row, own, same⟩ := knows _ old_
      exact ⟨m, old m row own, own, same⟩
    · obtain ⟨m, row, own, content⟩ := stored r (rows ▸ List.mem_filterMap.mpr ⟨w, member, made'⟩)
      exact ⟨m, row, own, by rw [content]; exact (prepared_digest made).symm⟩
  refine ⟨fun w member far => ?_, fun moved => ?_, fun through w member => ?_⟩
  · by_cases early : w.last ≤ start
    · exact (before w member early).rows old
    · exact taken w (mem_take_of_last sorted le start (mem_after.mpr ⟨member, by omega⟩) (by omega)
        (by omega))
  · rcases lastLine_mem le start with same | ⟨w, member, same⟩
    · omega
    · exact ⟨w, (mem_after.mp member).1, scanned.trans same⟩
  · by_cases early : w.last ≤ start
    · exact (before w member early).rows old
    · refine taken w ?_
      rw [whole through, List.take_length]
      exact mem_after.mpr ⟨member, by omega⟩

/-- What a call leaves of the cursors of the file, which a pass finds as it is. -/
theorem Aligned.change {saves : Int → Turn → Prop} {scans : Transcript → Prop} {s s' : State}
    (h : Aligned py key lines db id s) (c : Change py saves scans db left id s s')
    (own : ∀ t f, scans t → t.file = some f → cursorKey t.path = key → f.lines = lines) :
    Aligned py key lines left id s' := by
  refine ⟨c.hashes h.hashes, ?_⟩
  have held : ∀ w, Held py db id w → Held py left id w := fun w old => old.rows fun m => c.old
  have old : ∀ value, (key, value) ∈ s.cursors → Foreign value ∨ ∃ c : Cursor, value = c.json ∧
      (∃ w ∈ (wireCoalesced py 0 lines).1, c.line = w.last) ∧
        ∀ w ∈ (wireCoalesced py 0 lines).1, w.last ≤ c.line → Held py left id w := by
    intro value member
    refine (h.cursors value member).imp_right ?_
    rintro ⟨c, same, cut, before⟩
    exact ⟨c, same, cut, fun w member le => held w (before w member le)⟩
  have reread : ∀ {s : State} {cfg : Config} {e : Int},
      (∀ value, (key, value) ∈ s.cursors → Foreign value ∨ ∃ c : Cursor, value = c.json ∧
        (∃ w ∈ (wireCoalesced py 0 lines).1, c.line = w.last) ∧
          ∀ w ∈ (wireCoalesced py 0 lines).1, w.last ≤ c.line → Held py left id w) →
      ∀ value, (key, value) ∈ (s.reread py cfg e).cursors → Foreign value ∨ ∃ c : Cursor,
        value = c.json ∧ (∃ w ∈ (wireCoalesced py 0 lines).1, c.line = w.last) ∧
          ∀ w ∈ (wireCoalesced py 0 lines).1, w.last ≤ c.line → Held py left id w := by
    intro s cfg e cursors value member
    obtain ⟨⟨k, v⟩, stored, same⟩ := mem_reread_cursors member
    obtain ⟨rfl, rfl⟩ := Prod.mk.inj same
    rcases cursors v stored with foreign | ⟨c, rfl, cut, before⟩
    · exact .inl foreign.held
    · exact .inr ⟨c.reread py.floatRepr, c.held_json _, cut, before⟩
  cases c with
  | keep => exact old
  | turn => exact reread old
  | @pass cfg t f start reset done mid new e read file planned same messages rows _ _ =>
    refine reread fun value member => ?_
    rcases mem_after_cursors member with before | ⟨moved, equal_⟩
    · exact old value before
    · obtain ⟨named, rfl⟩ := Prod.mk.inj equal_
      have at_ : Aligned py key lines mid id s := by
        refine ⟨same ▸ h.hashes, fun value member => (h.cursors value member).imp_right ?_⟩
        rintro ⟨c, json, cut, before⟩
        exact ⟨c, json, cut, fun w member le => (before w member le).rows fun m row _ => same ▸ row⟩
      have holds : done.Holds py lines left id start := by
        refine at_.holds planned named.symm (own t f read file named.symm) (fun m row _ => ?_)
          fun r listed_ => ?_
        · rw [messages]
          exact List.mem_append_left _ (same ▸ row)
        · obtain ⟨m, stored, own, _, content, _⟩ := stored_of_rows rows listed_
          refine ⟨m, ?_, own, content⟩
          rw [messages]
          exact List.mem_append_right _ stored
      exact .inr ⟨done.cursor f, cursorOf_eq f done, holds.moved moved, holds.held⟩

/-! ## Runs over a file that stays as it is -/

/-- A pass over the file finds its lines. -/
def Offer.Over (key : Text) (lines : List Line) : Offer → Prop
  | .turn .. => True
  | .pass _ _ t => ∀ f, t.file = some f → cursorKey t.path = key → f.lines = lines

/-- Every task has the cursors of the file aligned. -/
structure Lined (py : Python) (key : Text) (lines : List Line) (db : Db) : Prop where
  legible : Legible py db
  aligned : ∀ id, (db.task? id).isSome → Aligned py key lines db id (stateOf py db id)

theorem Lined.moved {saves : Int → Turn → Prop} {scans : Transcript → Prop} (h : Lined py key lines db)
    (moves : Moves py saves scans db left)
    (own : ∀ t f, scans t → t.file = some f → cursorKey t.path = key → f.lines = lines) :
    Lined py key lines left :=
  ⟨moves.legible, moves.keeps (P := Aligned py key lines) (Q := Aligned py key lines) (fun _ => .empty)
    (fun c old => old.change c own) h.aligned⟩

theorem Lined.offer {o : Offer} (h : Lined py key lines db) (over_ : o.Over key lines) :
    Lined py key lines (o.run py db) := by
  cases o with
  | turn cfg clk t => exact h.moved (h.legible.turn cfg clk t) nofun
  | pass cfg clk t =>
    refine h.moved (h.legible.pass cfg clk t) fun u f same => ?_
    subst same
    exact over_ f

theorem Lined.offers (h : Lined py key lines db)
    (run : Offers py (fun o _ => o.Over key lines) db left) : Lined py key lines left := by
  induction run with
  | none => exact h
  | more _ o over_ ih => exact ih.offer over_

/-- A pass that writes, returns and is not stopped leaves every message of the file held. -/
theorem Lined.pass {t : Transcript} {f : WireFile} {r : IngestReport} (h : Lined py key lines db)
    (write : cfg.write = true) (file : t.file = some f) (path : cursorKey t.path = key)
    (same : f.lines = lines) (run : ingestTranscript py cfg clk t db = (.ok r, left))
    (read : r.status ≠ .unchanged) (calm : ∀ n, t.late n = false) (room : r.added < passCap) :
    ∃ id, r.taskId = some id ∧ ∀ w ∈ (wireCoalesced py 0 lines).1, Held py left id w := by
  obtain ⟨id, new, mid, project, here, task, passed⟩ := h.legible.ingest_ok write file run
  have mine : Lined py key lines mid := by
    have moves : Moves py (fun _ _ => False) (fun _ => False) db mid := (h.legible.project project).1
    exact h.moved moves nofun
  refine ⟨id, task, ?_⟩
  cases passed with
  | unchanged status => exact absurd status read
  | scanned _ planned _ added old stored =>
    have holds := (mine.aligned id here).holds planned path same (fun m row _ => old m row) stored
    exact holds.whole (scan_through planned.scan calm (added ▸ room))

/-- No row goes. -/
theorem Offers.rows {allowed : Offer → Db → Prop} (h : Legible py db) (run : Offers py allowed db left) :
    Legible py left ∧ ∀ m ∈ db.messages, m ∈ left.messages := by
  induction run with
  | none => exact ⟨h, fun _ row => row⟩
  | @more mid _ o _ ih =>
    refine ⟨ih.1.offer o, fun m row => ?_⟩
    have before := ih.2 m row
    cases o with
    | turn cfg clk t =>
      rcases saveTurn_rows ih.1 cfg clk t with same | ⟨_, _, _, _, new, _, _, _, _, same, _⟩
      · exact same ▸ before
      · exact same ▸ List.mem_append_left _ before
    | pass cfg clk t =>
      rcases ingest_rows py cfg clk t mid with same |
        ⟨_, _, _, _, _, _, _, _, new, _, _, _, _, same, _⟩
      · exact same ▸ before
      · exact same ▸ List.mem_append_left _ before

/-- A pass whose filter knows what is stored adds no row where every message of the file is held. -/
theorem Lined.adds_nothing {t : Transcript} {f : WireFile} {task : TaskRow} (h : Lined py key lines db)
    (file : t.file = some f) (path : cursorKey t.path = key) (same : f.lines = lines)
    (known : projectTask? py db t.project = some task) (filtered : t.Filtered py cfg clk db)
    (held : ∀ w ∈ (wireCoalesced py 0 lines).1, Held py db task.id w)
    (free : ∀ w ∈ (wireCoalesced py 0 lines).1, ∀ p, w.prepared py = some p → ∀ m ∈ db.messages,
      m.taskId = task.id → contentHash py m.content = p.digest → m.content = p.content) :
    (ingestTranscript py cfg clk t db).2.messages = db.messages := by
  rcases ingest_rows py cfg clk t db with nothing |
    ⟨f', id, new, mid, s, start, reset, done, rows, file', write, found, planned, messages, equal_⟩
  · exact nothing
  · obtain rfl : f = f' := Option.some.inj (file.symm.trans file')
    have project := atomic_ok.mp found
    rw [project_known known] at project
    obtain ⟨rfl, rfl⟩ : id = task.id ∧ mid = db := by
      cases project
      exact ⟨rfl, rfl⟩
    obtain ⟨begins, scanned⟩ := planned.found found
    have aligned : Aligned py key lines mid task.id s := by
      have here := projectTask_here known
      have read : stateOf py mid task.id = s :=
        Except.ok.inj ((h.legible.state here).symm.trans planned.state)
      exact read ▸ h.aligned task.id here
    have none_ : done.rows = [] := by
      rw [List.eq_nil_iff_forall_not_mem]
      intro r member
      obtain ⟨j, w, at_, looks, made⟩ := scan_looked scanned member
      have whole : w ∈ (wireCoalesced py 0 lines).1 := by
        have listed_ := List.mem_of_getElem? at_
        rw [same, wireCoalesced_after (aligned.begins planned path).1] at listed_
        exact (List.mem_filter.mp listed_).1
      have prepared := row_prepared made
      obtain ⟨m, row, own, digest⟩ := held w whole r.prepared prepared
      have stored : r.prepared.content ∈ contentsOf mid task.id :=
        mem_contentsOf.mpr ⟨m, row, own, free w whole r.prepared prepared m row own digest⟩
      have hit := filtered f task start reset file known begins j w r.prepared at_ looks prepared stored
      rw [(row_fresh made).2] at hit
      cases hit
    rw [none_, List.map_nil, List.map_eq_nil_iff] at equal_
    rw [messages, equal_, List.append_nil]

/-- The digests of every state are those of rows, and no state has a cursor that this version of the
    parser left of the file. -/
def Unread (py : Python) (key : Text) (db : Db) : Prop :=
  ∀ id, (db.task? id).isSome →
    (∀ j ∈ (stateOf py db id).hashes, ∃ m ∈ db.messages, m.taskId = id ∧
      j = .str (contentHash py m.content)) ∧
    ∀ value, (key, value) ∈ (stateOf py db id).cursors → Foreign value

/-- **Calls whose filters know what is stored never store a content twice.** From a store that has no
    content twice, turns and passes of any kind keep it so as long as each filter knows what the task
    stores of what the call is offered. And from a store where this version has not read a file that
    stays as it is, once a pass got through the file no later pass over it adds a row to the task. -/
theorem rescans_never_duplicate (legible : Legible py db) (once : Once db) :
    (∀ left, Offers py (Offer.Filtered py) db left → Once left) ∧
    ∀ key lines, Unread py key db →
      ∀ mid, Offers py (fun o _ => o.Over key lines) db mid →
      ∀ cfg clk t f r left, cfg.write = true → t.file = some f → cursorKey t.path = key → f.lines = lines →
        ingestTranscript py cfg clk t mid = (.ok r, left) → r.status ≠ .unchanged →
        (∀ n, t.late n = false) → r.added < passCap →
      ∀ later, Offers py (fun o _ => o.Over key lines) left later →
      ∀ cfg clk t f task, t.file = some f → cursorKey t.path = key → f.lines = lines →
        projectTask? py later t.project = some task → r.taskId = some task.id →
        t.Filtered py cfg clk later →
        (∀ w ∈ (wireCoalesced py 0 lines).1, ∀ p, w.prepared py = some p → ∀ m ∈ later.messages,
          m.taskId = task.id → contentHash py m.content = p.digest → m.content = p.content) →
        (ingestTranscript py cfg clk t later).2.messages = later.messages := by
  constructor
  · intro left run
    have both : Legible py left ∧ Once left := by
      induction run with
      | none => exact ⟨legible, once⟩
      | more _ o filtered ih => exact ⟨ih.1.offer o, ih.2.offer ih.1 filtered⟩
    exact both.2
  · intro key lines unread mid before cfg clk t f r left write file path same run read calm room later
      after cfg' clk' t' f' task file' path' same' known own filtered free
    have start : Lined py key lines db := by
      refine ⟨legible, fun id here => ?_⟩
      obtain ⟨hashes, foreign⟩ := unread id here
      exact ⟨hashes, fun value member => .inl (foreign value member)⟩
    have first := start.offers before
    obtain ⟨id, task', held⟩ := first.pass write file path same run read calm room
    obtain rfl : id = task.id := Option.some.inj (task'.symm.trans own)
    have second : Lined py key lines left := by
      have over_ : (Offer.pass cfg clk t).Over key lines := by
        intro f' file' _
        obtain rfl : f = f' := Option.some.inj (file.symm.trans file')
        exact same
      have moved : Lined py key lines (ingestTranscript py cfg clk t mid).2 := first.offer over_
      rwa [run] at moved
    have third := second.offers after
    exact third.adds_nothing file' path' same' known filtered
      (fun w member => (held w member).rows fun m row _ => (after.rows second.legible).2 m row) free

/-! ### A list that is too short -/

/-- The caps are not below one and the prepared messages of the file are different. -/
def Offer.Allowed (py : Python) : Offer → Prop
  | .turn cfg _ _ => 1 ≤ cfg.seenCap ∧ 1 ≤ cfg.hashCap ∧ 1 ≤ cfg.cursorCap
  | .pass cfg _ t => (1 ≤ cfg.seenCap ∧ 1 ≤ cfg.hashCap ∧ 1 ≤ cfg.cursorCap) ∧ ∀ f, t.file = some f →
      ((wireCoalesced py 0 f.lines).1.filterMap fun w => (w.prepared py).map (·.content)).Nodup

/-- The file of a session with one prompt. -/
def oncePrompted (rebuild : Bool) : Transcript :=
  { path := ⟨true, [Text.lit "w", Text.lit "wire.jsonl"]⟩
    file := some ⟨[.event hiPrompt], .int 1, 61, Text.lit "d7fcf6d8d79aa752"⟩
    cwd := some (Text.lit "/w"), rebuild := rebuild }

/-- What is read of it: nothing, or the prompt. -/
theorem oncePrompted_messages (start : Int) :
    (wireCoalesced chatPython start [.event hiPrompt]).1 = [] ∨
      (wireCoalesced chatPython start [.event hiPrompt]).1 =
        (wireCoalesced chatPython 0 [.event hiPrompt]).1 := by
  unfold wireCoalesced wireEvents
  by_cases skipped : ((0 : Nat) + 1 : Int) ≤ start
  · rw [wireEventsFrom_skip skipped]
    exact .inl rfl
  · rw [wireEventsFrom_read skipped]
    exact .inr rfl

/-- A file that is read twice leaves one row. -/
theorem read_twice :
    ∃ r left, ingestTranscript chatPython {} (fun _ => plainClock) (oncePrompted false) .empty = (.ok r, left) ∧
      Once left ∧
      (ingestTranscript chatPython {} (fun _ => plainClock) (oncePrompted true) left).2.messages =
        left.messages := by
  have ran : (ingestTranscript chatPython {} (fun _ => plainClock) (oncePrompted false)
        .empty).1.toOption.map (fun r => (r.added, r.status, r.taskId)) = some (1, .ingested, some 1) ∧
      (ingestTranscript chatPython {} (fun _ => plainClock) (oncePrompted false)
        .empty).2.messages.map (·.content) = [Text.lit "hi"] ∧
      (projectTask? chatPython (ingestTranscript chatPython {} (fun _ => plainClock) (oncePrompted false)
        .empty).2 (oncePrompted true).project).map (·.id) = some 1 ∧
      ((oncePrompted true).state? chatPython {} (fun _ => plainClock) (ingestTranscript chatPython {}
        (fun _ => plainClock) (oncePrompted false) .empty).2).any
          (fun s => listed (Text.lit "c22b5f9178342609") s.hashes) = true := by decide +kernel
  have prepared : ∀ w ∈ (wireCoalesced chatPython 0 [.event hiPrompt]).1,
      (w.prepared chatPython).map (fun p => (p.content, p.digest)) =
        some (Text.lit "hi", Text.lit "c22b5f9178342609") := by decide +kernel
  have few : (wireCoalesced chatPython 0 [.event hiPrompt]).1.length = 1 := by decide +kernel
  have rescans := @rescans_never_duplicate chatPython .empty Inv.start.legible fun _ => List.nodup_nil
  cases result : ingestTranscript chatPython {} (fun _ => plainClock) (oncePrompted false) .empty with
  | mk answer left =>
    rw [result] at ran
    obtain ⟨report, contents, known, window⟩ := ran
    cases answer with
    | error e => cases report
    | ok r =>
      obtain ⟨added, rest⟩ := Prod.mk.inj (Option.some.inj report)
      obtain ⟨status, task⟩ := Prod.mk.inj rest
      obtain ⟨row, found, one⟩ := Option.map_eq_some_iff.mp known
      refine ⟨r, left, rfl, ?_, ?_⟩
      · have unknown : ∀ name, projectTask? chatPython .empty name = none := fun _ => rfl
        have filtered : (Offer.pass {} (fun _ => plainClock) (oncePrompted false)).Filtered chatPython
            .empty := by
          refine ⟨fun f same _ start reset _ i j m m' r r' less first second => ?_,
            fun f task start reset _ found => nomatch (unknown _).symm.trans found⟩
          obtain rfl := Option.some.inj same
          have inside := (List.getElem?_eq_some_iff.mp second).1
          rcases oncePrompted_messages start with none_ | same
          · rw [none_] at inside
            exact absurd inside (Nat.not_lt_zero j)
          · rw [same, few] at inside
            omega
        have once : Once (ingestTranscript chatPython {} (fun _ => plainClock) (oncePrompted false)
          .empty).2 := rescans.1 _ (.more .none _ filtered)
        rwa [result] at once
      · have unread : Unread chatPython (cursorKey (oncePrompted false).path) .empty :=
          fun _ here => absurd here Bool.false_ne_true
        refine rescans.2 _ [.event hiPrompt] unread .empty .none {} (fun _ => plainClock)
          (oncePrompted false) _ r left rfl rfl rfl rfl result (by rw [status]; exact nofun)
          (fun _ => rfl) (by rw [added]; decide) left .none {} (fun _ => plainClock) (oncePrompted true) _
          row rfl rfl rfl found (by rw [task, one]) ?_ ?_
        · intro f task' start reset same _ _ j m p at_ _ made _
          obtain rfl := Option.some.inj same
          have listed_ := List.mem_of_getElem? at_
          rcases oncePrompted_messages start with none_ | same
          · rw [none_] at listed_
            cases listed_
          · rw [same] at listed_
            have both := prepared m listed_
            rw [made] at both
            obtain ⟨_, digest⟩ := Prod.mk.inj (Option.some.inj both)
            unfold Transcript.knows
            rw [digest, window]
            rfl
        · intro w member p made m stored _ _
          have both := prepared w member
          rw [made] at both
          obtain ⟨content, _⟩ := Prod.mk.inj (Option.some.inj both)
          have listed_ : m.content ∈ [Text.lit "hi"] := by
            rw [← contents]
            exact List.mem_map_of_mem stored
          rw [content]
          exact List.mem_singleton.mp listed_

/-- The file of a session with two prompts. -/
def bothPrompted : Transcript :=
  { oncePrompted false with
    file := some ⟨[.event hiPrompt, .event (.obj [(Text.lit "type", .str (Text.lit "turn.prompt")),
      (Text.lit "input", .arr [.obj [(Text.lit "type", .str (Text.lit "text")),
        (Text.lit "text", .str (Text.lit "yo"))]])])], .int 1, 122, Text.lit "c2c7a5d1c1d0a1f3"⟩ }

/-- With room for one digest a prompt of a file is stored again from the hook. -/
theorem prompt_stored_again :
    ∃ db, Offers chatPython (fun o _ => o.Allowed chatPython) .empty db ∧ ¬ Once db := by
  have short : (1 : Int) ≤ 500 ∧ (1 : Int) ≤ 1 ∧ (1 : Int) ≤ 200 := by decide
  have first : Offers chatPython (fun o _ => o.Allowed chatPython) .empty
      ((Offer.pass { hashCap := 1 } (fun _ => plainClock) bothPrompted).run chatPython .empty) := by
    refine .more .none _ ⟨short, fun f same => ?_⟩
    obtain rfl := Option.some.inj same
    decide +kernel
  refine ⟨_, first.more
    (.turn { hashCap := 1 } (fun _ => plainClock) (sessionPrompt "hi" (some (.int 1)))) short, fun once => ?_⟩
  have rows : contentsOf ((Offer.turn { hashCap := 1 } (fun _ => plainClock)
      (sessionPrompt "hi" (some (.int 1)))).run chatPython
        ((Offer.pass { hashCap := 1 } (fun _ => plainClock) bothPrompted).run chatPython .empty)) 1 =
          [Text.lit "hi", Text.lit "yo", Text.lit "hi"] := by decide +kernel
  have nodup := once 1
  rw [rows] at nodup
  exact absurd nodup (by decide)

end Autosave

end Cmpath
