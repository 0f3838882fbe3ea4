import Cmpath.Autosave.Capture
import Cmpath.Memory.Resolution

/-!
# What a pass appends

A pass of `ingest_transcript` looks at the messages from its first line on, up to the deadline or to
the one that fills its cap (`Looks`), and appends a row for each of them that is not known
(`ingest_appends`). What is known is fixed before the first message is looked at
(`autosave.py:806`), and the list of digests grows only while the rows are written, so two messages
of one content both get a row: a pass stores each content once exactly when the messages it looks at
have different ones (`pass_stores_once`).
-/

namespace Cmpath
open Lib Lib.Txn

namespace Autosave

variable {py : Python} {cfg : Config} {clk : Nat → Clock} {t : Transcript} {db db' : Db}

/-! ## The loop over the messages -/

section Scan

variable {late : Nat → Bool} {row : WireMessage → Option Row}

/-- The pass looks at a message: no deadline up to it, and room for a row. -/
def Looks (row : WireMessage → Option Row) (late : Nat → Bool) (messages : List WireMessage)
    (j : Nat) : Prop :=
  (∀ n ≤ j, late n = false) ∧ ((messages.take j).filterMap row).length < passCap

theorem Looks.earlier {messages : List WireMessage} {i j : Nat} (h : Looks row late messages j)
    (before : i ≤ j) : Looks row late messages i := by
  refine ⟨fun n le => h.1 n (Nat.le_trans le before), Nat.lt_of_le_of_lt ?_ h.2⟩
  have shorter := List.take_sublist_take_left (l := messages) before
  exact (shorter.filterMap row).length_le

end Scan

/-- The rows of a scan are those of the first messages, as many as it looks at. -/
theorem scan_rows {known : Text → Bool} {late : Nat → Bool} {raises : Option Failure} {n : Nat}
    {start done : Scan} {messages : List WireMessage}
    (h : scan py known late raises n start messages = .ok done)
    (room : start.rows.length < passCap) :
    ∃ k, done.rows = start.rows ++ (messages.take k).filterMap (·.row py known) ∧
      (∀ j < k, late (n + j) = false ∧
        start.rows.length + ((messages.take j).filterMap (·.row py known)).length < passCap) ∧
      (messages.length ≤ k ∨ late (n + k) = true ∨
        passCap ≤ start.rows.length + ((messages.take k).filterMap (·.row py known)).length) := by
  induction messages generalizing n start with
  | nil =>
    refine ⟨0, ?_, fun j less => absurd less (Nat.not_lt_zero j), .inl (Nat.le_refl 0)⟩
    unfold scan at h
    split at h
    · cases h
    · rw [← Except.ok.inj h]
      simp
  | cons m rest ih =>
    unfold scan at h
    by_cases stop : late n = true
    · rw [if_pos stop] at h
      refine ⟨0, ?_, fun j less => absurd less (Nat.not_lt_zero j), .inr (.inl (by simpa using stop))⟩
      rw [← Except.ok.inj h]
      simp
    · have early : late n = false := by simpa using stop
      have shift : ∀ j, n + (j + 1) = n + 1 + j := by
        intro j
        omega
      rw [if_neg stop] at h
      cases found : m.row py known with
      | none =>
        rw [found] at h
        obtain ⟨k, rows, looked, ended⟩ := ih h room
        have skip : ∀ j, ((m :: rest).take (j + 1)).filterMap (·.row py known) =
            (rest.take j).filterMap (·.row py known) := by
          intro j
          rw [List.take_succ_cons, List.filterMap_cons_none found]
        refine ⟨k + 1, by rw [skip]; exact rows, fun j less => ?_, ?_⟩
        · cases j with
          | zero => exact ⟨early, by simpa using room⟩
          | succ j =>
            rw [skip, shift]
            exact looked j (Nat.lt_of_succ_lt_succ less)
        · rw [skip, shift, List.length_cons, Nat.add_le_add_iff_right]
          exact ended
      | some r =>
        rw [found] at h
        have put : ∀ j, ((m :: rest).take (j + 1)).filterMap (·.row py known) =
            r :: (rest.take j).filterMap (·.row py known) := by
          intro j
          rw [List.take_succ_cons, List.filterMap_cons_some found]
        have grown : (start.rows ++ [r]).length = start.rows.length + 1 := by simp
        dsimp only at h
        by_cases full : passCap ≤ (start.rows ++ [r]).length
        · rw [if_pos full] at h
          refine ⟨1, ?_, fun j less => ?_, .inr (.inr ?_)⟩
          · rw [← Except.ok.inj h, put]
            rfl
          · rw [Nat.lt_one_iff.mp less]
            exact ⟨early, by simpa using room⟩
          · rw [put]
            simpa using full
        · rw [if_neg full] at h
          obtain ⟨k, rows, looked, ended⟩ := ih h (Nat.lt_of_not_le full)
          rw [grown] at looked ended
          refine ⟨k + 1, ?_, fun j less => ?_, ?_⟩
          · rw [put, rows, List.append_assoc]
            rfl
          · cases j with
            | zero => exact ⟨early, by simpa using room⟩
            | succ j =>
              obtain ⟨quick, fits⟩ := looked j (Nat.lt_of_succ_lt_succ less)
              rw [shift]
              refine ⟨quick, ?_⟩
              rw [put, List.length_cons]
              omega
          · rw [put, List.length_cons, List.length_cons, Nat.add_le_add_iff_right]
            rcases ended with all | stopped | filled
            · exact .inl all
            · exact .inr (.inl (by rwa [shift]))
            · exact .inr (.inr (by omega))

/-- The rows of a pass are different in content exactly when the messages it looks at are. -/
theorem scan_nodup {known : Text → Bool} {late : Nat → Bool} {raises : Option Failure} {start : Int}
    {done : Scan} {messages : List WireMessage}
    (h : scan py known late raises 0 ⟨[], start, false⟩ messages = .ok done) :
    (done.rows.map (·.prepared.content)).Nodup ↔
      ∀ i j m m' r r', i < j → messages[i]? = some m → messages[j]? = some m' →
        Looks (·.row py known) late messages j → m.row py known = some r →
          m'.row py known = some r' → r.prepared.content ≠ r'.prepared.content := by
  obtain ⟨k, rows, looked, ended⟩ := scan_rows h (by decide : ([] : List Row).length < passCap)
  simp only [List.length_nil, Nat.zero_add] at looked ended
  have reaches : ∀ j, j < messages.length → (j < k ↔ Looks (·.row py known) late messages j) := by
    intro j inside
    constructor
    · intro less
      exact ⟨fun n le => (looked n (Nat.lt_of_le_of_lt le less)).1, (looked j less).2⟩
    · intro looks
      by_contra past
      have beyond : k ≤ j := Nat.le_of_not_lt past
      have atEnd := looks.earlier beyond
      rcases ended with all | stopped | filled
      · omega
      · rw [atEnd.1 k (Nat.le_refl k)] at stopped
        cases stopped
      · exact absurd atEnd.2 (Nat.not_lt_of_le filled)
  rw [rows, List.nil_append, List.Nodup, List.pairwise_map, List.pairwise_filterMap,
    List.pairwise_iff_getElem]
  constructor
  · intro apart i j m m' r r' less atI atJ looks first second
    obtain ⟨insideI, rfl⟩ := List.getElem?_eq_some_iff.mp atI
    obtain ⟨insideJ, rfl⟩ := List.getElem?_eq_some_iff.mp atJ
    have inK := (reaches j insideJ).mpr looks
    have here := apart i j (by rw [List.length_take]; omega) (by rw [List.length_take]; omega) less
    simp only [List.getElem_take] at here
    exact here r first r' second
  · intro apart i j insideI insideJ less r first r' second
    simp only [List.getElem_take] at first second
    rw [List.length_take] at insideI insideJ
    have looks := (reaches j (by omega)).mp (by omega)
    exact apart i j _ _ r r' less (List.getElem?_eq_getElem (by omega))
      (List.getElem?_eq_getElem (by omega)) looks first second

/-! ## The batch -/

theorem role_ofText (role : Role) : Role.ofText? role.text = some role := by
  cases role <;> decide

/-- Each row is appended, in order. -/
theorem appendRows_ok {appendClock : Nat → Clock} {taskId : Int} {s s' : State} {rows : List Row}
    (h : appendRows cfg appendClock t taskId s rows db = .ok (s', db')) :
    ∃ new, db'.messages = db.messages ++ new ∧
      new.map (fun m => (m.taskId, m.role, m.content, m.source)) =
        rows.map fun r => (taskId, r.role, r.prepared.content, t.source r) := by
  induction rows generalizing s db with
  | nil =>
    obtain ⟨_, rfl⟩ := pure_ok.mp h
    exact ⟨[], (List.append_nil _).symm, rfl⟩
  | cons r rest ih =>
    unfold appendRows at h
    obtain ⟨_, _, put, later⟩ := bind_ok.mp h
    obtain ⟨m, messages, _, task, source, _, content, role, _⟩ := TaskMemory.append_ok _ put
    obtain ⟨new, more, same⟩ := ih later
    rw [role_ofText] at role
    refine ⟨m :: new, ?_, ?_⟩
    · rw [more, messages, List.append_assoc]
      rfl
    · rw [List.map_cons, List.map_cons, same, task, content, source, ← Option.some.inj role]

theorem storeState_messages {clock : Clock} {taskId : Int} {s : State} {u : Unit}
    (h : storeState cfg clock taskId s db = .ok (u, db')) : db'.messages = db.messages := by
  unfold storeState at h
  cases last : s.lastEvidence with
  | none =>
    rw [last] at h
    rw [(pure_ok.mp h).2]
  | some id =>
    rw [last] at h
    have kept : Evolves Write.Silent db db' := TaskMemory.keeps_setFact clock (fun _ => trivial)
      (fun _ _ _ => trivial) _ _ _ _ _ _ _ _ h
    exact kept.silent_messages

/-- The batch of a pass appends its rows. -/
theorem commitPass_appends {taskId start : Int} {s : State} {f : WireFile} {reset : Bool}
    {done : Scan} {r : IngestReport}
    (h : commitPass cfg clk t taskId s f start reset done db = .ok (r, db')) :
    ∃ new, db'.messages = db.messages ++ new ∧
      new.map (fun m => (m.taskId, m.role, m.content, m.source)) =
        done.rows.map fun row => (taskId, row.role, row.prepared.content, t.source row) := by
  unfold commitPass at h
  obtain ⟨_, _, rows, rest⟩ := bind_ok.mp h
  obtain ⟨_, _, stored, rest⟩ := bind_ok.mp rest
  obtain ⟨new, messages, same⟩ := appendRows_ok rows
  refine ⟨new, ?_, same⟩
  rw [(pure_ok.mp rest).2, storeState_messages stored, messages]

/-- To find the project task makes a task at most. -/
theorem project_founds (clock : Clock) (create : Bool) (name : Text) :
    Keeps (Evolves Write.Founding) (projectTaskByName py clock create name) := by
  have refl := @Evolves.refl_all Write.Founding
  have trans := @Evolves.trans_all Write.Founding
  unfold projectTaskByName
  refine .bind trans (.read refl _) fun known => ?_
  split
  · exact .pure refl _
  · split
    · exact .bind trans (TaskMemory.createTask_founds _ _ _ _ _ _) fun _ => .pure refl _
    · exact .pure refl _

theorem projectTask_messages {clock : Clock} {create : Bool} {name : Text} {out : Option Int × Bool}
    (h : projectTaskByName py clock create name db = .ok (out, db')) :
    db'.messages = db.messages :=
  ((project_founds _ _ _ _ _ _ h).mono fun _ => Write.Founding.silent).silent_messages

/-! ## What a pass finds -/

/-- The task of a pass, and the store the pass is planned from. -/
def Transcript.task (py : Python) (cfg : Config) (clk : Nat → Clock) (t : Transcript) (db : Db) :
    Except Failure (Option Int × Bool) × Db :=
  atomic (projectTaskByName py (clk 0) cfg.write t.project) db

/-- The state a pass finds. -/
def Transcript.state? (py : Python) (cfg : Config) (clk : Nat → Clock) (t : Transcript) (db : Db) :
    Option State :=
  (t.task py cfg clk db).1.toOption.bind fun task =>
    (state py task.1 (t.task py cfg clk db).2).toOption

/-- Where a pass begins. -/
def Transcript.resume? (py : Python) (cfg : Config) (clk : Nat → Clock) (t : Transcript)
    (f : WireFile) (db : Db) : Option Resume :=
  (t.state? py cfg clk db).bind fun s =>
    (Entry.ofJson ((Json.obj s.cursors).get? (cursorKey t.path))).toOption.bind fun entry =>
      (resumeAt t.rebuild entry f).toOption

/-- The digests a pass knows before it looks at a message: the hash list, and on a pass that begins
    again what is stored of the path. -/
def Transcript.knows (py : Python) (cfg : Config) (clk : Nat → Clock) (t : Transcript) (db : Db)
    (reset : Bool) (digest : Text) : Bool :=
  (t.state? py cfg clk db).any (fun s => listed digest s.hashes) ||
    (reset && (storedWireDigests py ((t.task py cfg clk db).1.toOption.bind (·.1)) (cursorKey t.path)
      (t.task py cfg clk db).2).contains digest)

/-- What the plan of a pass that writes rests on. -/
structure Planned (py : Python) (cfg : Config) (t : Transcript) (f : WireFile) (taskId : Option Int)
    (db : Db) (s : State) (start : Int) (reset : Bool) (done : Scan) : Prop where
  state : state py taskId db = .ok s
  resume : (Entry.ofJson ((Json.obj s.cursors).get? (cursorKey t.path))).toOption.bind
    (fun entry => (resumeAt t.rebuild entry f).toOption) = some (.scan start reset)
  scan : scan py (fun digest => listed digest s.hashes ||
      (if reset then storedWireDigests py taskId (cursorKey t.path) db else []).contains digest)
    t.late (wireCoalesced py start f.lines).2 0 ⟨[], start, false⟩
      (wireCoalesced py start f.lines).1 = .ok done

/-- A plan to write is one for the task, from a scan. -/
theorem planPass_ok {f : WireFile} {taskId : Option Int} {plan : PassPlan}
    (h : planPass py cfg t f taskId db = .ok plan) :
    (∃ r s start, plan = .answer r ∧ Autosave.state py taskId db = .ok s ∧
      (Entry.ofJson ((Json.obj s.cursors).get? (cursorKey t.path))).toOption.bind
        (fun entry => (resumeAt t.rebuild entry f).toOption) = some (.unchanged start)) ∨
    ∃ s start reset done, Planned py cfg t f taskId db s start reset done ∧
      ((∃ r, plan = .answer r ∧ (taskId = none ∨ cfg.write = false ∨ done.rows = [])) ∨
        ∃ id, taskId = some id ∧ cfg.write = true ∧ plan = .store id s f start reset done) := by
  unfold planPass at h
  obtain ⟨s, found, h⟩ := except_bind_ok.mp h
  obtain ⟨entry, read_, h⟩ := except_bind_ok.mp h
  obtain ⟨resume, chosen, h⟩ := except_bind_ok.mp h
  have began : (Entry.ofJson ((Json.obj s.cursors).get? (cursorKey t.path))).toOption.bind
      (fun entry => (resumeAt t.rebuild entry f).toOption) = some resume := by
    rw [read_]
    show (resumeAt t.rebuild entry f).toOption = some resume
    rw [chosen]
    rfl
  cases resume with
  | unchanged start =>
    exact .inl ⟨_, s, start, (Except.ok.inj h).symm, found, began⟩
  | scan start reset =>
    obtain ⟨done, ran, h⟩ := except_bind_ok.mp h
    refine .inr ⟨s, start, reset, done, ⟨found, began, ran⟩, ?_⟩
    cases taskId with
    | none => exact .inl ⟨_, (Except.ok.inj h).symm, .inl rfl⟩
    | some id =>
      cases write : cfg.write with
      | false =>
        simp only [write, Bool.not_false, if_true] at h
        exact .inl ⟨_, (Except.ok.inj h).symm, .inr (.inl rfl)⟩
      | true =>
        simp only [write, Bool.not_true, Bool.false_eq_true, if_false] at h
        split at h
        · rename_i nothing
          rw [Bool.and_eq_true, List.isEmpty_iff] at nothing
          exact .inl ⟨_, (Except.ok.inj h).symm, .inr (.inr nothing.1)⟩
        · exact .inr ⟨id, rfl, rfl, (Except.ok.inj h).symm⟩

/-- With leave to write there is a project task. -/
theorem projectTask_some {clock : Clock} {name : Text} {out : Option Int × Bool}
    (h : projectTaskByName py clock true name db = .ok (out, db')) : out.1 ≠ none := by
  unfold projectTaskByName at h
  obtain ⟨known, _, _, rest⟩ := bind_ok.mp h
  cases known with
  | some task =>
    rw [(pure_ok.mp rest).1]
    exact Option.some_ne_none _
  | none =>
    obtain ⟨id, _, _, rest⟩ := bind_ok.mp rest
    rw [(pure_ok.mp rest).1]
    exact Option.some_ne_none _

/-! ## Each content once -/

/-- The rows that were added have different contents, none of them in a hash list. -/
def StoresOnce (py : Python) (hashes : List Json) (db db' : Db) : Prop :=
  ∃ new, db'.messages = db.messages ++ new ∧ (new.map (·.content)).Nodup ∧
    ∀ m ∈ new, listed (contentHash py m.content) hashes = false

/-- A pass over a file that may write and that begins to scan looks at no two messages of one content
    that it does not know. -/
def Transcript.DistinctIn (py : Python) (cfg : Config) (clk : Nat → Clock) (t : Transcript)
    (f : WireFile) (db : Db) : Prop :=
  cfg.write = true → ∀ start reset, t.resume? py cfg clk f db = some (.scan start reset) →
    ∀ i j m m' r r', i < j → (wireCoalesced py start f.lines).1[i]? = some m →
      (wireCoalesced py start f.lines).1[j]? = some m' →
        Looks (·.row py (t.knows py cfg clk db reset)) t.late (wireCoalesced py start f.lines).1 j →
          m.row py (t.knows py cfg clk db reset) = some r →
            m'.row py (t.knows py cfg clk db reset) = some r' →
              r.prepared.content ≠ r'.prepared.content

def Transcript.Distinct (py : Python) (cfg : Config) (clk : Nat → Clock) (t : Transcript) (db : Db) :
    Prop :=
  ∀ f, t.file = some f → t.DistinctIn py cfg clk f db

theorem StoresOnce.nothing {hashes : List Json} (same : db'.messages = db.messages) :
    StoresOnce py hashes db db' := by
  refine ⟨[], ?_, List.nodup_nil, fun m member => absurd member List.not_mem_nil⟩
  rw [same, List.append_nil]

/-- The digest of what is stored is that of its content, and is not known. -/
theorem row_fresh {known : Text → Bool} {m : WireMessage} {r : Row} (h : m.row py known = some r) :
    r.prepared.digest = contentHash py r.prepared.content ∧ known r.prepared.digest = false := by
  unfold WireMessage.row at h
  obtain ⟨p, made, h⟩ := Option.bind_eq_some_iff.mp h
  split at h
  · cases h
  · rename_i fresh
    rw [← Option.some.inj h]
    refine ⟨?_, by simpa using fresh⟩
    unfold WireMessage.prepared prepareText at made
    dsimp only at made
    split at made
    · cases made
    · rw [← Option.some.inj made]

/-- A row has what its message is prepared as. -/
theorem row_prepared {known : Text → Bool} {m : WireMessage} {r : Row} (h : m.row py known = some r) :
    m.prepared py = some r.prepared := by
  unfold WireMessage.row at h
  obtain ⟨p, made, h⟩ := Option.bind_eq_some_iff.mp h
  split at h
  · cases h
  · rw [← Option.some.inj h]
    exact made

/-- What a pass that plans to write does with the plan. -/
theorem Planned.storesOnce {f : WireFile} {taskId : Option Int} {s : State} {start : Int}
    {reset : Bool} {done : Scan} (p : Planned py cfg t f taskId db s start reset done)
    {new : List MessageRow} {old : Db} (messages : db'.messages = old.messages ++ new)
    (same : new.map (·.content) = done.rows.map (·.prepared.content)) :
    StoresOnce py s.hashes old db' ↔ (done.rows.map (·.prepared.content)).Nodup := by
  constructor
  · rintro ⟨new', messages', nodup, _⟩
    rw [messages] at messages'
    rwa [← same, List.append_cancel_left messages']
  · intro nodup
    refine ⟨new, messages, by rwa [same], fun m member => ?_⟩
    obtain ⟨k, rows, _, _⟩ := scan_rows p.scan (by decide : ([] : List Row).length < passCap)
    have content : m.content ∈ done.rows.map (·.prepared.content) := by
      rw [← same]
      exact List.mem_map_of_mem member
    obtain ⟨r, stored, content⟩ := List.mem_map.mp content
    rw [rows, List.nil_append] at stored
    obtain ⟨w, _, made⟩ := List.mem_filterMap.mp stored
    obtain ⟨digest, fresh⟩ := row_fresh made
    rw [digest, Bool.or_eq_false_iff] at fresh
    rw [← content]
    exact fresh.1

/-- What a plan rests on, in the words of the pass. -/
theorem Planned.found {f : WireFile} {out : Option Int × Bool} {s : State} {start : Int}
    {reset : Bool} {done : Scan} {left : Db} (task : t.task py cfg clk db = (.ok out, left))
    (p : Planned py cfg t f out.1 left s start reset done) :
    t.resume? py cfg clk f db = some (.scan start reset) ∧
      Autosave.scan py (t.knows py cfg clk db reset) t.late (wireCoalesced py start f.lines).2 0 ⟨[], start, false⟩
        (wireCoalesced py start f.lines).1 = .ok done := by
  have found : t.state? py cfg clk db = some s := by
    unfold Transcript.state?
    rw [task]
    show (Autosave.state py out.1 left).toOption = some s
    rw [p.state]
    rfl
  have knows : (fun digest => listed digest s.hashes ||
      (if reset then storedWireDigests py out.1 (cursorKey t.path) left else []).contains digest) =
        t.knows py cfg clk db reset := by
    funext digest
    unfold Transcript.knows
    rw [found, task]
    cases reset <;> rfl
  refine ⟨?_, knows ▸ p.scan⟩
  unfold Transcript.resume?
  rw [found]
  exact p.resume

/-- The contents a plan collects are different exactly when the messages it looks at are. -/
theorem Planned.nodup_iff {f : WireFile} {out : Option Int × Bool} {left : Db} {s : State}
    {start : Int} {reset : Bool} {done : Scan} (task : t.task py cfg clk db = (.ok out, left))
    (p : Planned py cfg t f out.1 left s start reset done) (write : cfg.write = true) :
    (done.rows.map (·.prepared.content)).Nodup ↔ t.DistinctIn py cfg clk f db := by
  obtain ⟨begins, scanned⟩ := p.found task
  rw [scan_nodup scanned]
  constructor
  · intro apart _ start' reset' same
    rw [begins] at same
    cases same
    exact apart
  · intro distinct
    exact distinct write start reset begins

/-- A pass over a file that is there. -/
theorem pass_stores_once_in {f : WireFile} (file : t.file = some f) :
    (∀ e db', ingestTranscript py cfg clk t db = (.error e, db') → db'.messages = db.messages) ∧
    ∀ r db', ingestTranscript py cfg clk t db = (.ok r, db') →
      (StoresOnce py (((t.state? py cfg clk db).map (·.hashes)).getD []) db db' ↔
        t.DistinctIn py cfg clk f db) := by
  unfold ingestTranscript
  rw [file]
  dsimp only
  cases task : atomic (projectTaskByName py (clk 0) cfg.write t.project) db with
  | mk result left =>
    cases result with
    | error e =>
      dsimp only
      refine ⟨fun e' db' same => ?_, fun r db' same => ?_⟩
      · rw [← (Prod.mk.inj same).2, atomic_error task]
      · cases (Prod.mk.inj same).1
    | ok out =>
      have before := projectTask_messages (atomic_ok.mp task)
      dsimp only
      cases plan : planPass py cfg t f out.1 left with
      | error e =>
        dsimp only
        refine ⟨fun e' db' same => ?_, fun r db' same => ?_⟩
        · rw [← (Prod.mk.inj same).2, before]
        · cases (Prod.mk.inj same).1
      | ok plan =>
        have found : ∀ s, state py out.1 left = .ok s → t.state? py cfg clk db = some s := by
          intro s ran
          unfold Transcript.state? Transcript.task
          rw [task]
          show (state py out.1 left).toOption = some s
          rw [ran]
          rfl
        rcases planPass_ok plan with ⟨answer, s, start, rfl, ran, unchanged⟩ |
          ⟨s, start, reset, done, planned, ⟨answer, rfl, idle⟩ | ⟨id, owner, write, rfl⟩⟩
        · dsimp only
          refine ⟨fun e db' same => ?_, fun r db' same => ?_⟩
          · cases (Prod.mk.inj same).1
          · rw [← (Prod.mk.inj same).2]
            refine iff_of_true (.nothing before) fun _ start' reset' begins => ?_
            unfold Transcript.resume? at begins
            rw [found s ran] at begins
            exact absurd (unchanged.symm.trans begins) (by simp)
        · dsimp only
          refine ⟨fun e db' same => ?_, fun r db' same => ?_⟩
          · cases (Prod.mk.inj same).1
          · rw [← (Prod.mk.inj same).2]
            refine iff_of_true (.nothing before) fun write => ?_
            rcases idle with none_ | dry | empty
            · have made := atomic_ok.mp task
              rw [write] at made
              exact absurd none_ (projectTask_some made)
            · rw [write] at dry
              cases dry
            · have distinct := (planned.nodup_iff task write).mp (by rw [empty]; exact List.nodup_nil)
              exact distinct write
        · dsimp only
          refine ⟨fun e db' failed => ?_, fun r db' ran => ?_⟩
          · rw [atomic_error failed, before]
          · obtain ⟨new, messages, same⟩ := commitPass_appends (atomic_ok.mp ran)
            rw [before] at messages
            have contents : new.map (·.content) = done.rows.map (·.prepared.content) := by
              have third := congrArg (List.map fun row => row.2.2.1) same
              rwa [List.map_map, List.map_map] at third
            rw [found s planned.state, ← planned.nodup_iff task write]
            exact planned.storesOnce messages contents

/-- **A pass stores each content once exactly when it looks at no two messages of one content.** A
    pass that raises stores nothing. One that returns never stores what the hash list has, and stores
    each content once exactly when no two of the messages it looks at and does not know have the same
    one. -/
theorem pass_stores_once (py : Python) (cfg : Config) (clk : Nat → Clock) (t : Transcript)
    (db : Db) :
    (∀ e db', ingestTranscript py cfg clk t db = (.error e, db') → db'.messages = db.messages) ∧
    ∀ r db', ingestTranscript py cfg clk t db = (.ok r, db') →
      (StoresOnce py (((t.state? py cfg clk db).map (·.hashes)).getD []) db db' ↔
        t.Distinct py cfg clk db) := by
  cases file : t.file with
  | none =>
    have run : ingestTranscript py cfg clk t db =
        (.ok { status := .missing, path := t.path.text }, db) := by
      unfold ingestTranscript
      rw [file]
    rw [run]
    refine ⟨fun e db' same => ?_, fun r db' same => ?_⟩
    · cases (Prod.mk.inj same).1
    · rw [← (Prod.mk.inj same).2]
      refine iff_of_true (.nothing rfl) fun f here => ?_
      rw [file] at here
      cases here
  | some f =>
    have whole : t.Distinct py cfg clk db ↔ t.DistinctIn py cfg clk f db := by
      unfold Transcript.Distinct
      rw [file]
      simp only [Option.some.injEq, forall_eq']
    rw [whole]
    exact pass_stores_once_in file

/-! ### One prompt twice -/

/-- A host whose SHA-1 is known of the text `hi`. -/
def asciiPython : Python :=
  { asciiHost with
    sha1 := fun text => Text.lit <|
      if text == Text.lit "hi" then "c22b5f9178342609428d6f51b2c5af4c0bde6a42"
      else "da39a3ee5e6b4b0d3255bfef95601890afd80709"
    str := fun _ => [] }

/-- `{"type":"turn.prompt","input":[{"type":"text","text":"hi"}]}`. -/
def hiPrompt : Json :=
  .obj [(Text.lit "type", .str (Text.lit "turn.prompt")),
    (Text.lit "input", .arr [.obj [(Text.lit "type", .str (Text.lit "text")),
      (Text.lit "text", .str (Text.lit "hi"))]])]

/-- A file with the same prompt on two lines. -/
def twicePrompted : Transcript :=
  { path := ⟨true, [Text.lit "w", Text.lit "wire.jsonl"]⟩
    file := some ⟨[.event hiPrompt, .event hiPrompt], .int 1, 122, Text.lit "d7fcf6d8d79aa752"⟩ }

/-- The first pass over a file with the same prompt on two lines stores it twice. -/
theorem pass_stores_twice :
    (∃ r, (ingestTranscript asciiPython {} (fun _ => plainClock) twicePrompted .empty).1 = .ok r) ∧
    ¬ StoresOnce asciiPython [] .empty
      (ingestTranscript asciiPython {} (fun _ => plainClock) twicePrompted .empty).2 := by
  have run : (ingestTranscript asciiPython {} (fun _ => plainClock) twicePrompted
        .empty).1.toOption.map (·.added) = some 2 ∧
      (ingestTranscript asciiPython {} (fun _ => plainClock) twicePrompted
        .empty).2.messages.map (·.content) = [Text.lit "hi", Text.lit "hi"] := by decide +kernel
  refine ⟨?_, ?_⟩
  · cases result : (ingestTranscript asciiPython {} (fun _ => plainClock) twicePrompted .empty).1 with
    | error e =>
      rw [result] at run
      cases run.1
    | ok r => exact ⟨r, rfl⟩
  · rintro ⟨new, messages, nodup, _⟩
    have contents := run.2
    rw [messages] at contents
    have same : new.map (·.content) = [Text.lit "hi", Text.lit "hi"] := contents
    rw [same] at nodup
    exact absurd nodup (by decide)

end Autosave

end Cmpath
