import Cmpath.Autosave.Storing

/-!
# Dry runs

An `Autosave` opened with `write=False` (`autosave.py:527-543`) plans what a writing one does and
leaves the batch out. A file that is not there is replaced by a database in memory; a file that is
there is opened by `TaskMemory.__init__` (`memory.py:197-223`), which makes the tables where there are
none. A dry run is a pure prediction exactly when the file is not an empty one and the writing call
would not fail in its batches (`dry_run_exact`).
-/

namespace Cmpath
open Lib Lib.Txn

namespace Autosave

/-! ## Files -/

/-- A database file: not there, without tables, or with the tables of a store. -/
inductive DbFile where
  | absent
  | empty
  | store (db : Db)

/-- The rows of a file. -/
def DbFile.db : DbFile → Db
  | .absent | .empty => .empty
  | .store db => db

/-- What `Autosave(path, write=...)` finds: the file once it is open, and whether the connection is
    to the file or to memory. -/
structure Opened where
  file : DbFile
  connected : Bool

/-- `Autosave.__init__`. -/
def DbFile.openWith (write : Bool) : DbFile → Opened
  | .absent => if write then ⟨.store .empty, true⟩ else ⟨.absent, false⟩
  | .empty => ⟨.store .empty, true⟩
  | .store db => ⟨.store db, true⟩

/-- A call on an `Autosave` that is opened for it. -/
def onFile {α : Type} (write : Bool) (call : Db → Except Failure α × Db) (file : DbFile) :
    Except Failure α × DbFile :=
  let o := file.openWith write
  let done := call o.file.db
  (done.1, if o.connected then .store done.2 else o.file)

/-- The settings of a dry run. -/
def Config.dry (cfg : Config) : Config := { cfg with write := false }

/-- The settings of a writing call. -/
def Config.wet (cfg : Config) : Config := { cfg with write := true }

/-! ## Decisions -/

/-- What `save_turn` decides. -/
inductive TurnDecision where
  | empty
  | duplicate (key : Text)
  | save (chars : Nat) (truncated : Bool)

def SaveTurn.decision : SaveTurn → TurnDecision
  | .empty _ => .empty
  | .duplicate _ key => .duplicate key
  | .wouldSave _ _ chars truncated | .saved _ _ chars truncated => .save chars truncated

/-- A status without its mood. -/
def IngestStatus.real : IngestStatus → IngestStatus
  | .wouldIngest => .ingested
  | status => status

/-- What `ingest_transcript` decides: its status, `added`, `scanned_to` and `reset_cursor`. -/
def IngestReport.decision (r : IngestReport) : IngestStatus × Nat × Int × Bool :=
  (r.status.real, r.added, r.scannedTo, r.resetCursor)

/-- A dry run leaves the file as it is, and decides what the writing call decides. -/
structure PureRun {α β : Type} (decision : α → β) (dry wet : Db → Except Failure α × Db)
    (file : DbFile) : Prop where
  unchanged : (onFile false dry file).2 = file
  predicts : (onFile false dry file).1.toOption.map decision =
    (onFile true wet file).1.toOption.map decision

section Pure

variable {α β : Type} {decision : α → β} {dry wet : Db → Except Failure α × Db} {file : DbFile}

/-- A call that leaves the database alone leaves a file alone that is not empty. -/
theorem unchanged_iff (still : ∀ db, (dry db).2 = db) :
    (onFile false dry file).2 = file ↔ file ≠ .empty := by
  cases file with
  | absent => exact iff_of_true rfl (by simp)
  | empty =>
    refine iff_of_false (fun same => ?_) (by simp)
    cases same
  | store db =>
    refine iff_of_true ?_ (by simp)
    show DbFile.store (dry db).2 = .store db
    rw [still]

/-- Both calls work on the rows of the file. -/
theorem predicts_iff :
    (onFile false dry file).1.toOption.map decision =
        (onFile true wet file).1.toOption.map decision ↔
      (dry file.db).1.toOption.map decision = (wet file.db).1.toOption.map decision := by
  cases file <;> exact Iff.rfl

theorem pureRun_iff (still : ∀ db, (dry db).2 = db) {condition : Prop}
    (agrees : (dry file.db).1.toOption.map decision = (wet file.db).1.toOption.map decision ↔
      condition) :
    PureRun decision dry wet file ↔ file ≠ .empty ∧ condition := by
  constructor
  · rintro ⟨unchanged, predicts⟩
    exact ⟨(unchanged_iff still).mp unchanged, agrees.mp (predicts_iff.mp predicts)⟩
  · rintro ⟨some_, condition⟩
    exact ⟨(unchanged_iff still).mpr some_, predicts_iff.mpr (agrees.mpr condition)⟩

end Pure

variable {py : Python} {cfg : Config} {clk : Nat → Clock} {db : Db}

/-! ## The project -/

/-- The project task a dry run works on. -/
def knownTask (py : Python) (db : Db) (name : Text) : Option Int :=
  (projectTask? py db name).map (·.id)

theorem project_still (clock : Clock) (name : Text) :
    atomic (projectTaskByName py clock false name) db = (.ok (knownTask py db name, false), db) := by
  rw [atomic_ok]
  unfold knownTask
  cases known : projectTask? py db name with
  | none => exact project_dry known
  | some task => exact project_known known

/-- What a call with leave to write finds where it finds or makes its task: a task that is there, in
    a store that tells of it what the old one tells of the task a dry run works on. -/
structure Found (py : Python) (db : Db) (name : Text) (id : Int) (left : Db) : Prop where
  regular : Regular left
  here : (left.task? id).isSome
  reads : state py (some id) left = state py (knownTask py db name) db
  stored : ∀ key, storedWireDigests py (some id) key left =
    storedWireDigests py (knownTask py db name) key db
  same : ∀ task, projectTask? py db name = some task → id = task.id ∧ left = db
  fresh : projectTask? py db name = none → state py (some id) left = .ok .empty

theorem projectTask_here {name : Text} {task : TaskRow} (known : projectTask? py db name = some task) :
    (db.task? task.id).isSome := by
  unfold projectTask? TaskMemory.tasks at known
  have listed := (List.mem_insertionSort _).mp (List.mem_of_find?_eq_some known)
  unfold Db.task?
  rw [List.find?_isSome]
  exact ⟨task, listed, by simp⟩

/-- A task that was just made has no state and no message. -/
theorem made_state {alias_ : Text} {id : Int} {left : Db} (regular : Regular db)
    (made : TaskMemory.Alone py.toHost alias_ db left id) (after : Regular left) :
    state py (some id) left = .ok .empty := by
  obtain ⟨row, found⟩ := findTask_of_row after.numbered made.here
  have bare : TaskMemory.currentRow left id stateKey = none := by
    unfold TaskMemory.currentRow
    have none_ : left.facts.filter (fun f => f.taskId == id && f.key == stateKey) = [] := by
      rw [made.facts, List.filter_eq_nil_iff]
      intro f member
      have given := regular.attached.facts f member
      have next := made.next
      simp only [Bool.and_eq_true, beq_iff_eq, not_and]
      intro same
      omega
    rw [none_, List.mergeSort_nil]
    rfl
  have read : TaskMemory.fact py.toHost id stateKey none left = .ok none := by
    unfold TaskMemory.fact
    refine except_bind_ok.mpr ⟨(), rfl, except_bind_ok.mpr ⟨row, found, except_bind_ok.mpr ⟨(), ?_, ?_⟩⟩⟩
    · rw [stateKey_valid]
      rfl
    · dsimp only
      rw [bare]
      rfl
  unfold state
  rw [except_bind_ok]
  exact ⟨none, read, rfl⟩

theorem made_digests {alias_ : Text} {id : Int} {left : Db} (regular : Regular db)
    (made : TaskMemory.Alone py.toHost alias_ db left id) (key : Text) :
    storedWireDigests py (some id) key left = [] := by
  unfold storedWireDigests
  dsimp only
  rw [made.messages, List.filter_eq_nil_iff.mpr]
  · rfl
  · intro m member hit
    have given := regular.owned m member
    have next := made.next
    rw [Bool.and_eq_true, Bool.and_eq_true, beq_iff_eq] at hit
    omega

/-- With leave to write the project is found or made, unless it cannot be named. -/
theorem project_wet (py : Python) (clock : Clock) (name : Text) (regular : Regular db) :
    ((projectTask? py db name = none → ProjectNameable py name) ∧
      ∃ id new left, atomic (projectTaskByName py clock true name) db = (.ok (some id, new), left) ∧
        Found py db name id left) ∨
    (¬ (projectTask? py db name = none → ProjectNameable py name) ∧
      ∃ e, atomic (projectTaskByName py clock true name) db = (.error e, db)) := by
  cases known : projectTask? py db name with
  | some task =>
    refine .inl ⟨nofun, task.id, false, db, atomic_ok.mpr (project_known known), regular,
      projectTask_here known, ?_, fun key => ?_, fun other same => ?_, fun none_ => ?_⟩
    · unfold knownTask
      rw [known]
      rfl
    · unfold knownTask
      rw [known]
      rfl
    · rw [known] at same
      cases same
      exact ⟨rfl, rfl⟩
    · rw [known] at none_
      cases none_
  | none =>
    have makes := project_total clock regular.tasks regular.attached known
    by_cases nameable : ProjectNameable py name
    · obtain ⟨out, left, run⟩ := makes.mpr nameable
      obtain ⟨id, rfl, made⟩ := project_made known run
      have after := regular.evolves (project_founds _ _ _ _ _ _ run)
      refine .inl ⟨fun _ => nameable, id, true, left, atomic_ok.mpr run, after, made.here, ?_,
        fun key => ?_, fun task same => ?_, fun _ => made_state regular made after⟩
      · unfold knownTask
        rw [known, made_state regular made after]
        rfl
      · unfold knownTask
        rw [known, made_digests regular made]
        rfl
      · rw [known] at same
        cases same
    · refine .inr ⟨fun both => nameable (both rfl), ?_⟩
      cases run : projectTaskByName py clock true name db with
      | error e => exact ⟨e, atomic_of_error run⟩
      | ok out => exact absurd (makes.mp ⟨out.1, out.2, run⟩) nameable

/-! ## A turn -/

/-- The prompt is in the state, as a turn or as a content. -/
def Turn.seenIn (t : Turn) (s : State) (p : Prepared) : Bool :=
  listed t.key s.seen || listed p.digest s.hashes

/-- A call with leave to write would not fail: its project has a name that can be bound, and so can
    the prompt, its source and the state where the prompt is new. -/
structure TurnWritable (py : Python) (cfg : Config) (t : Turn) (db : Db) : Prop where
  project : projectTask? py db (projectName t.cwd) = none → ProjectNameable py (projectName t.cwd)
  prompt : ∀ s p, state py (knownTask py db (projectName t.cwd)) db = .ok s →
    prepareText py t.prompt maxMessageChars = some p → t.seenIn s p = false →
      Bindable p.content (t.source p.truncated) ∧ (s.turned cfg t.key p.digest).Sound cfg

/-- What a dry run answers from a state. -/
def Turn.foretold (py : Python) (t : Turn) (taskId : Option Int) (s : State) : SaveTurn :=
  match prepareText py t.prompt maxMessageChars with
  | none => .empty taskId
  | some p =>
      if t.seenIn s p then .duplicate taskId t.key
      else .wouldSave taskId t.key p.content.length p.truncated

theorem saveTurn_dry (t : Turn) (db : Db) :
    saveTurn py cfg.dry clk t db =
      ((state py (knownTask py db (projectName t.cwd)) db).map
        (t.foretold py (knownTask py db (projectName t.cwd))), db) := by
  have project : atomic (projectTaskByName py (clk 2) false (projectName t.cwd)) db = _ :=
    project_still _ _
  unfold saveTurn
  rw [show cfg.dry.write = false from rfl, project]
  dsimp only
  unfold planTurn Turn.foretold Turn.seenIn
  cases state py (knownTask py db (projectName t.cwd)) db with
  | error e => simp only [bind, Except.bind, Except.map]
  | ok s =>
    simp only [bind, Except.bind, Except.map]
    cases prepareText py t.prompt maxMessageChars with
    | none => rfl
    | some p =>
      dsimp only
      by_cases seen : (listed t.key s.seen || listed p.digest s.hashes) = true
      · rw [if_pos seen, if_pos seen]
      · rw [if_neg seen, if_neg seen]
        cases knownTask py db (projectName t.cwd) <;> rfl

theorem commitTurn_decision {t : Turn} {taskId : Int} {s : State} {p : Prepared}
    {out : SaveTurn × Db} (h : commitTurn cfg clk t taskId s p db = .ok out) :
    out.1.decision = .save p.content.length p.truncated := by
  unfold commitTurn at h
  obtain ⟨_, _, _, h⟩ := bind_ok.mp h
  obtain ⟨_, _, _, h⟩ := bind_ok.mp h
  rw [(pure_ok.mp h).1]
  rfl

/-- A dry `save_turn` decides what the writing one decides exactly when that one would not fail. -/
theorem turn_predicted (t : Turn) (regular : Regular db) :
    (saveTurn py cfg.dry clk t db).1.toOption.map SaveTurn.decision =
        (saveTurn py cfg.wet clk t db).1.toOption.map SaveTurn.decision ↔
      TurnWritable py cfg t db := by
  rw [saveTurn_dry]
  unfold saveTurn
  rw [show cfg.wet.write = true from rfl]
  rcases project_wet py (clk 2) (projectName t.cwd) regular with
    ⟨nameable, id, new, left, project, found⟩ | ⟨unnameable, e, project⟩
  · rw [project]
    dsimp only
    unfold planTurn
    rw [found.reads]
    cases ran : state py (knownTask py db (projectName t.cwd)) db with
    | error e =>
      refine iff_of_true rfl ⟨nameable, fun s p same => ?_⟩
      rw [ran] at same
      cases same
    | ok s =>
      simp only [bind, Except.bind, Except.map]
      unfold Turn.foretold
      cases prepared : prepareText py t.prompt maxMessageChars with
      | none =>
        refine iff_of_true rfl ⟨nameable, fun s' p _ same => ?_⟩
        rw [prepared] at same
        cases same
      | some p =>
        dsimp only
        by_cases seen : t.seenIn s p = true
        · rw [if_pos seen]
          unfold Turn.seenIn at seen
          rw [if_pos seen]
          refine iff_of_true rfl ⟨nameable, fun s' p' first second fresh => ?_⟩
          rw [ran] at first
          rw [prepared] at second
          cases first
          cases second
          unfold Turn.seenIn at fresh
          rw [seen] at fresh
          cases fresh
        · rw [if_neg seen]
          have fresh : t.seenIn s p = false := by simpa using seen
          unfold Turn.seenIn at seen
          rw [if_neg seen, if_pos (show cfg.wet.write = true from rfl)]
          have total : (∃ r left', commitTurn cfg.wet clk t id s p left = .ok (r, left')) ↔ _ :=
            commitTurn_total found.regular found.here
          dsimp only
          cases run : commitTurn cfg.wet clk t id s p left with
          | error e =>
            rw [atomic_of_error run]
            refine iff_of_false (fun same => by cases same) fun writable => ?_
            obtain ⟨r, _, done⟩ := total.mpr (writable.prompt s p ran prepared fresh)
            rw [run] at done
            cases done
          | ok out =>
            rw [atomic_ok.mpr run]
            have writes := total.mp ⟨out.1, out.2, run⟩
            refine iff_of_true ?_ ⟨nameable, fun s' p' first second _ => ?_⟩
            · exact congrArg some (commitTurn_decision run).symm
            · rw [ran] at first
              rw [prepared] at second
              cases first
              cases second
              exact writes
  · rw [project]
    refine iff_of_false (fun same => ?_) fun writable => unnameable writable.project
    have unknown : knownTask py db (projectName t.cwd) = none := by
      unfold knownTask
      cases known : projectTask? py db (projectName t.cwd) with
      | none => rfl
      | some task => exact absurd (fun none_ => by rw [known] at none_; cases none_) unnameable
    rw [unknown] at same
    cases same

/-! ## A pass -/

/-- What a pass knows before it may write: its state, its first line, whether it begins again, and
    what it collects unless the file is unchanged. -/
structure Survey where
  state : State
  start : Int
  reset : Bool
  scan : Option Scan

/-- The part of a pass that both kinds of call share. -/
def survey (py : Python) (t : Transcript) (f : WireFile) (taskId : Option Int) : Query Survey :=
  fun db => do
    let s ← state py taskId db
    let entry ← Entry.ofJson ((Json.obj s.cursors).get? (cursorKey t.path))
    match ← resumeAt t.rebuild entry f with
    | .unchanged start => .ok ⟨s, start, false, none⟩
    | .scan start reset => do
        let stored := if reset then storedWireDigests py taskId (cursorKey t.path) db else []
        let known := fun digest => listed digest s.hashes || stored.contains digest
        let messages := wireCoalesced py start f.lines
        let done ← scan py known t.late messages.2 0 ⟨[], start, false⟩ messages.1
        .ok ⟨s, start, reset, some done⟩

/-- What a pass reports of a survey when nothing is written. -/
def Survey.report (v : Survey) (t : Transcript) (taskId : Option Int) : IngestReport :=
  match v.scan with
  | none => { status := .unchanged, taskId := taskId, path := t.path.text, scannedTo := v.start }
  | some done =>
      { status := if done.rows.isEmpty then .clean else .wouldIngest
        taskId := taskId
        path := t.path.text
        scannedTo := done.scannedTo
        added := done.rows.length
        resetCursor := v.reset
        preview := (done.rows.take 5).map fun r => (r.line, r.role, r.prepared.content.length) }

/-- The plan of a pass that may write. -/
def Survey.plan (v : Survey) (t : Transcript) (f : WireFile) (taskId : Int) : PassPlan :=
  match v.scan with
  | none => .answer (v.report t (some taskId))
  | some done =>
      if done.rows.isEmpty && decide (done.scannedTo ≤ v.start) then
        .answer { status := .clean, taskId := some taskId, path := t.path.text
                  scannedTo := done.scannedTo, resetCursor := v.reset }
      else .store taskId v.state f v.start v.reset done

theorem planPass_dry (t : Transcript) (f : WireFile) (taskId : Option Int) :
    planPass py cfg.dry t f taskId db =
      (survey py t f taskId db).map fun v => .answer (v.report t taskId) := by
  unfold planPass survey
  cases state py taskId db with
  | error e => rfl
  | ok s =>
    simp only [bind, Except.bind, Except.map]
    cases Entry.ofJson ((Json.obj s.cursors).get? (cursorKey t.path)) with
    | error e => rfl
    | ok entry =>
      dsimp only
      cases resumeAt t.rebuild entry f with
      | error e => rfl
      | ok resume =>
        cases resume with
        | unchanged start => rfl
        | scan start reset =>
          dsimp only
          split
          · rfl
          · cases taskId <;> rfl

theorem planPass_wet (t : Transcript) (f : WireFile) (taskId : Int) :
    planPass py cfg.wet t f (some taskId) db =
      (survey py t f (some taskId) db).map fun v => v.plan t f taskId := by
  unfold planPass survey
  cases state py (some taskId) db with
  | error e => rfl
  | ok s =>
    simp only [bind, Except.bind, Except.map]
    cases Entry.ofJson ((Json.obj s.cursors).get? (cursorKey t.path)) with
    | error e => rfl
    | ok entry =>
      dsimp only
      cases resumeAt t.rebuild entry f with
      | error e => rfl
      | ok resume =>
        cases resume with
        | unchanged start => rfl
        | scan start reset =>
          dsimp only
          split
          · rfl
          · rename_i done _
            have wet : ¬ (!cfg.wet.write) = true := Bool.false_ne_true
            unfold Survey.plan
            dsimp only
            rw [if_neg wet]
            by_cases idle : (done.rows.isEmpty && decide (done.scannedTo ≤ start)) = true
            · rw [if_pos idle, if_pos idle]
            · rw [if_neg idle, if_neg idle]

/-- A pass of a project surveys alike with and without leave to write. -/
theorem Found.survey {t : Transcript} {f : WireFile} {id : Int} {left : Db} {name : Text}
    (found : Found py db name id left) :
    survey py t f (some id) left = survey py t f (knownTask py db name) db := by
  unfold Autosave.survey
  rw [found.reads, found.stored]

/-- A call with leave to write would not fail after the survey: its project has a name that can be
    bound, and so can what it would store. -/
structure Survey.Writable (py : Python) (cfg : Config) (t : Transcript) (f : WireFile) (db : Db)
    (v : Survey) : Prop where
  project : projectTask? py db t.project = none → ProjectNameable py t.project
  rows : ∀ done, v.scan = some done → ∀ r ∈ done.rows, Bindable r.prepared.content (t.source r)
  sound : ∀ done, v.scan = some done → done.rows ≠ [] →
    (v.state.passed cfg t f v.start done).Sound cfg
  storable : ∀ done, v.scan = some done → done.rows = [] → v.start < done.scannedTo →
    ∀ task, projectTask? py db t.project = some task →
      (v.state.passed cfg t f v.start done).Storable cfg db task.id

/-- A call with leave to write would not fail where the survey does not. -/
def PassWritable (py : Python) (cfg : Config) (t : Transcript) (db : Db) : Prop :=
  ∀ f, t.file = some f → ∀ v, survey py t f (knownTask py db t.project) db = .ok v →
    v.Writable py cfg t f db

theorem ingest_dry {t : Transcript} {f : WireFile} (file : t.file = some f) (db : Db) :
    ingestTranscript py cfg.dry clk t db =
      ((survey py t f (knownTask py db t.project) db).map
        fun v => v.report t (knownTask py db t.project), db) := by
  unfold ingestTranscript
  rw [file]
  dsimp only
  rw [show cfg.dry.write = false from rfl, project_still]
  dsimp only
  rw [planPass_dry]
  cases survey py t f (knownTask py db t.project) db with
  | error e => rfl
  | ok v => rfl

theorem commitPass_decision {t : Transcript} {f : WireFile} {taskId start : Int} {s : State}
    {reset : Bool} {done : Scan} {out : IngestReport × Db}
    (h : commitPass cfg clk t taskId s f start reset done db = .ok out) :
    out.1.decision = (if done.rows.isEmpty then .clean else .ingested, done.rows.length,
      done.scannedTo, reset) := by
  unfold commitPass at h
  obtain ⟨_, _, _, h⟩ := bind_ok.mp h
  obtain ⟨_, _, _, h⟩ := bind_ok.mp h
  rw [(pure_ok.mp h).1]
  unfold IngestReport.decision
  dsimp only
  split <;> rfl

theorem survey_state {t : Transcript} {f : WireFile} {taskId : Option Int} {v : Survey}
    (h : survey py t f taskId db = .ok v) : state py taskId db = .ok v.state := by
  unfold survey at h
  obtain ⟨s, found, h⟩ := except_bind_ok.mp h
  obtain ⟨entry, _, h⟩ := except_bind_ok.mp h
  obtain ⟨resume, _, h⟩ := except_bind_ok.mp h
  cases resume with
  | unchanged start =>
    rw [← Except.ok.inj h]
    exact found
  | scan start reset =>
    obtain ⟨done, _, h⟩ := except_bind_ok.mp h
    rw [← Except.ok.inj h]
    exact found

/-- To carry out a plan. -/
def PassPlan.carryOut (cfg : Config) (clk : Nat → Clock) (t : Transcript) (plan : PassPlan) (db : Db) :
    Except Failure IngestReport × Db :=
  match plan with
  | .answer r => (.ok r, db)
  | .store id s f start reset done => atomic (commitPass cfg clk t id s f start reset done) db

/-- What the batch of a survey needs is what makes it writable. -/
theorem Survey.writable_iff {t : Transcript} {f : WireFile} {v : Survey} {id : Int} {left : Db}
    {done : Scan} (nameable : projectTask? py db t.project = none → ProjectNameable py t.project)
    (found : Found py db t.project id left)
    (ran : survey py t f (knownTask py db t.project) db = .ok v) (scanned : v.scan = some done)
    (moves : done.rows = [] → v.start < done.scannedTo) :
    PassStorable cfg t f v.state v.start done left id ↔ v.Writable py cfg t f db := by
  have only : ∀ {other : Scan}, v.scan = some other → other = done := by
    intro other same
    rw [scanned] at same
    exact (Option.some.inj same).symm
  constructor
  · rintro ⟨rows, sound, storable⟩
    refine ⟨nameable, fun other same => ?_, fun other same => ?_, fun other same empty _ task known => ?_⟩
    · exact only same ▸ rows
    · exact only same ▸ sound
    · obtain ⟨rfl, rfl⟩ := found.same task known
      rw [only same] at empty ⊢
      exact storable empty
  · rintro ⟨_, rows, sound, storable⟩
    refine ⟨rows done scanned, sound done scanned, fun empty => ?_⟩
    cases known : projectTask? py db t.project with
    | some task =>
      obtain ⟨rfl, rfl⟩ := found.same task known
      exact storable done scanned empty (moves empty) task known
    | none =>
      have bare := (survey_state ran).symm.trans (found.reads.symm.trans (found.fresh known))
      intro evidence last
      rw [Except.ok.inj bare] at last
      cases last

/-- What the writing call makes of a survey agrees with the dry report exactly when it can be
    written. -/
theorem Survey.agrees {t : Transcript} {f : WireFile} {v : Survey} {id : Int} {left : Db}
    (nameable : projectTask? py db t.project = none → ProjectNameable py t.project)
    (found : Found py db t.project id left)
    (ran : survey py t f (knownTask py db t.project) db = .ok v) :
    some (v.report t (knownTask py db t.project)).decision =
        ((v.plan t f id).carryOut cfg clk t left).1.toOption.map IngestReport.decision ↔
      v.Writable py cfg t f db := by
  unfold Survey.plan Survey.report
  cases scanned : v.scan with
  | none =>
    have vacuous : ∀ {done : Scan}, v.scan = some done → False := by
      intro done same
      rw [scanned] at same
      cases same
    exact iff_of_true rfl ⟨nameable, fun _ same => (vacuous same).elim,
      fun _ same => (vacuous same).elim, fun _ same => (vacuous same).elim⟩
  | some done =>
    dsimp only
    by_cases idle : (done.rows.isEmpty && decide (done.scannedTo ≤ v.start)) = true
    · rw [if_pos idle]
      rw [Bool.and_eq_true, List.isEmpty_iff, decide_eq_true_eq] at idle
      have only : ∀ {other : Scan}, v.scan = some other → other = done := by
        intro other same
        rw [scanned] at same
        exact (Option.some.inj same).symm
      refine iff_of_true ?_ ⟨nameable, fun other same r member => ?_, fun other same some_ => ?_,
        fun other same _ moves => ?_⟩
      · unfold PassPlan.carryOut IngestReport.decision
        rw [idle.1]
        rfl
      · rw [only same, idle.1] at member
        exact absurd member List.not_mem_nil
      · rw [only same] at some_
        exact absurd idle.1 some_
      · rw [only same] at moves
        omega
    · rw [if_neg idle]
      rw [Bool.and_eq_true, List.isEmpty_iff, decide_eq_true_eq] at idle
      have moves : done.rows = [] → v.start < done.scannedTo := by
        intro empty
        by_contra stays
        exact idle ⟨empty, Int.not_lt.mp stays⟩
      have total : (∃ r left', commitPass cfg clk t id v.state f v.start v.reset done left =
          .ok (r, left')) ↔ _ := commitPass_total found.regular found.here
      rw [← v.writable_iff nameable found ran scanned moves, ← total]
      unfold PassPlan.carryOut
      dsimp only
      cases run : commitPass cfg clk t id v.state f v.start v.reset done left with
      | error e =>
        rw [atomic_of_error run]
        refine iff_of_false (fun same => by cases same) ?_
        rintro ⟨r, left', same⟩
        cases same
      | ok out =>
        rw [atomic_ok.mpr run]
        refine iff_of_true ?_ ⟨out.1, out.2, rfl⟩
        refine congrArg some (Eq.trans ?_ (commitPass_decision run).symm)
        unfold IngestReport.decision
        dsimp only
        split <;> rfl

/-- The writing call carries out the plan of its survey. -/
theorem ingest_wet {t : Transcript} {f : WireFile} {id : Int} {new : Bool} {left : Db} {v : Survey}
    (file : t.file = some f)
    (project : atomic (projectTaskByName py (clk 0) true t.project) db = (.ok (some id, new), left))
    (ran : survey py t f (some id) left = .ok v) :
    ingestTranscript py cfg.wet clk t db = (v.plan t f id).carryOut cfg.wet clk t left := by
  unfold ingestTranscript
  rw [file]
  dsimp only
  rw [show cfg.wet.write = true from rfl, project]
  dsimp only
  rw [planPass_wet, ran]
  simp only [Except.map]
  cases v.plan t f id <;> rfl

theorem ingest_wet_error {t : Transcript} {f : WireFile} {id : Int} {new : Bool} {left : Db}
    {e : Failure} (file : t.file = some f)
    (project : atomic (projectTaskByName py (clk 0) true t.project) db = (.ok (some id, new), left))
    (ran : survey py t f (some id) left = .error e) :
    (ingestTranscript py cfg.wet clk t db).1 = .error e := by
  unfold ingestTranscript
  rw [file]
  dsimp only
  rw [show cfg.wet.write = true from rfl, project]
  dsimp only
  rw [planPass_wet, ran]
  rfl

/-- A dry pass decides what the writing one decides exactly when that one would not fail. -/
theorem pass_predicted (t : Transcript) (regular : Regular db) :
    (ingestTranscript py cfg.dry clk t db).1.toOption.map IngestReport.decision =
        (ingestTranscript py cfg.wet clk t db).1.toOption.map IngestReport.decision ↔
      PassWritable py cfg t db := by
  cases file : t.file with
  | none =>
    refine iff_of_true ?_ fun f same => ?_
    · unfold ingestTranscript
      rw [file]
    · rw [file] at same
      cases same
  | some f =>
    have whole : PassWritable py cfg t db ↔
        ∀ v, survey py t f (knownTask py db t.project) db = .ok v → v.Writable py cfg t f db := by
      unfold PassWritable
      rw [file]
      simp only [Option.some.injEq, forall_eq']
    rw [whole, ingest_dry file]
    rcases project_wet py (clk 0) t.project regular with
      ⟨nameable, id, new, left, project, found⟩ | ⟨unnameable, e, project⟩
    · have same := found.survey (t := t) (f := f)
      cases ran : survey py t f (knownTask py db t.project) db with
      | error e =>
        rw [ran] at same
        rw [ingest_wet_error file project same]
        exact iff_of_true rfl nofun
      | ok v =>
        rw [ran] at same
        rw [ingest_wet file project same]
        refine (v.agrees nameable found ran).trans ⟨fun w v' same => ?_, fun writable => ?_⟩
        · rw [← Except.ok.inj same]
          exact ⟨w.project, w.rows, w.sound, w.storable⟩
        · have w := writable v rfl
          exact ⟨w.project, w.rows, w.sound, w.storable⟩
    · cases ran : survey py t f (knownTask py db t.project) db with
      | error e' =>
        refine iff_of_true ?_ nofun
        unfold ingestTranscript
        rw [file]
        dsimp only
        rw [show cfg.wet.write = true from rfl, project]
        rfl
      | ok v =>
        refine iff_of_false (fun same => ?_) fun writable => unnameable (writable v rfl).project
        unfold ingestTranscript at same
        rw [file] at same
        dsimp only at same
        rw [show cfg.wet.write = true from rfl, project] at same
        cases same

/-! ## Dry runs -/

/-- **A dry run is a pure prediction exactly when the file is not empty and the writing call would not
    fail.** It leaves the file as it is unless the file is there without tables, and decides what the
    writing call decides unless that call fails in a batch. -/
theorem dry_run_exact (py : Python) (cfg : Config) (clk : Nat → Clock) (file : DbFile)
    (kept : Reachable py.toHost file.db) :
    (∀ t, PureRun SaveTurn.decision (saveTurn py cfg.dry clk t) (saveTurn py cfg.wet clk t) file ↔
      file ≠ .empty ∧ TurnWritable py cfg t file.db) ∧
    ∀ t, PureRun IngestReport.decision (ingestTranscript py cfg.dry clk t)
        (ingestTranscript py cfg.wet clk t) file ↔
      file ≠ .empty ∧ PassWritable py cfg t file.db := by
  have regular := Regular.of_reachable kept
  refine ⟨fun t => pureRun_iff (fun db => ?_) (turn_predicted t regular),
    fun t => pureRun_iff (fun db => ?_) (pass_predicted t regular)⟩
  · rw [saveTurn_dry]
  · cases here : t.file with
    | none =>
      unfold ingestTranscript
      rw [here]
    | some f => rw [ingest_dry here]

/-- A dry run on a file that is not there. -/
theorem dry_run_absent :
    (∀ t, PureRun SaveTurn.decision (saveTurn asciiPython ({} : Config).dry (fun _ => plainClock) t)
        (saveTurn asciiPython ({} : Config).wet (fun _ => plainClock) t) .absent ↔
      DbFile.absent ≠ .empty ∧ TurnWritable asciiPython {} t .empty) ∧
    ∀ t, PureRun IngestReport.decision
        (ingestTranscript asciiPython ({} : Config).dry (fun _ => plainClock) t)
        (ingestTranscript asciiPython ({} : Config).wet (fun _ => plainClock) t) .absent ↔
      DbFile.absent ≠ .empty ∧ PassWritable asciiPython {} t .empty :=
  dry_run_exact asciiPython {} (fun _ => plainClock) .absent ⟨[], rfl⟩

/-- A dry run makes the tables of a file that is there and has none. -/
theorem dry_run_makes_tables :
    (onFile false (saveTurn asciiPython ({} : Config).dry (fun _ => plainClock)
        { sessionId := Text.lit "s", cwd := none, prompt := Text.lit "hi" }) .empty).2 =
      .store .empty ∧
    ¬ PureRun SaveTurn.decision
      (saveTurn asciiPython ({} : Config).dry (fun _ => plainClock)
        { sessionId := Text.lit "s", cwd := none, prompt := Text.lit "hi" })
      (saveTurn asciiPython ({} : Config).wet (fun _ => plainClock)
        { sessionId := Text.lit "s", cwd := none, prompt := Text.lit "hi" }) .empty := by
  have made : (onFile false (saveTurn asciiPython ({} : Config).dry (fun _ => plainClock)
      { sessionId := Text.lit "s", cwd := none, prompt := Text.lit "hi" }) .empty).2 =
        .store .empty := by
    show DbFile.store (saveTurn asciiPython ({} : Config).dry (fun _ => plainClock)
      { sessionId := Text.lit "s", cwd := none, prompt := Text.lit "hi" } .empty).2 = _
    rw [saveTurn_dry]
  refine ⟨made, fun pure_ => ?_⟩
  rw [pure_.unchanged] at made
  cases made

end Autosave

end Cmpath
