import Cmpath.Autosave.Following

/-!
# Calls that interleave

A call of autosave is not one transaction: it looks for its task, reads the state, looks at the file and
decides before it opens its batch, and other processes may commit in between. `Turning` and `Passing` are
`save_turn` and `ingest_transcript` cut at every look at the store or the file; a call nobody interrupts
is the one of `Capture` (`Turning.alone`, `Passing.alone`). A `World` has one store, one growing file
and any number of processes (`Interleaved`).
-/

namespace Cmpath
open Lib Lib.Txn

namespace Autosave

variable {py : Python} {cfg : Config} {clk : Nat → Clock} {db : Db}

/-- `create_task` of a project, a batch of its own (`autosave.py:576-577`). -/
def createProject (py : Python) (clk : Clock) (name : Text) : Tx Int :=
  TaskMemory.createTask py.toHost clk (Text.lit "Autosave: " ++ name) [] [Text.lit "auto:" ++ name]
    (.obj [])

/-! ## A turn -/

/-- How far a call of `save_turn` is. -/
inductive Turning where
  /-- It looks for its task. -/
  | looking
  /-- No task has the name, and it makes one. -/
  | naming
  /-- It reads the state and decides. -/
  | loading (taskId : Option Int)
  /-- It opens its batch with what it decided. -/
  | storing (taskId : Int) (state : State) (prepared : Prepared)
  | returned (r : SaveTurn)
  | raised (e : Failure)

/-- The next step of `save_turn` (`autosave.py:652-683`). -/
def Turning.next (py : Python) (cfg : Config) (clk : Nat → Clock) (t : Turn) (db : Db) :
    Turning → Turning × Db
  | .looking =>
      match knownTask py db (projectName t.cwd) with
      | some id => (.loading (some id), db)
      | none => (if cfg.write then .naming else .loading none, db)
  | .naming =>
      match atomic (createProject py (clk 2) (projectName t.cwd)) db with
      | (.error e, db) => (.raised e, db)
      | (.ok id, db) => (.loading (some id), db)
  | .loading taskId =>
      match planTurn py cfg t taskId db with
      | .error e => (.raised e, db)
      | .ok (.answer r) => (.returned r, db)
      | .ok (.store id s p) => (.storing id s p, db)
  | .storing id s p =>
      match atomic (commitTurn cfg clk t id s p) db with
      | (.error e, db) => (.raised e, db)
      | (.ok r, db) => (.returned r, db)
  | .returned r => (.returned r, db)
  | .raised e => (.raised e, db)

/-- How a call ended. -/
def Turning.outcome : Turning → Option (Except Failure SaveTurn)
  | .returned r => some (.ok r)
  | .raised e => some (.error e)
  | _ => none

/-! ## A pass -/

/-- How far a call of `ingest_transcript` is; the file is as it was last looked at. -/
inductive Passing where
  | looking
  | naming
  | loading (taskId : Option Int)
  /-- It takes the marker of the file. -/
  | marking (taskId : Option Int) (state : State) (entry : Entry)
  /-- It asks for the digests that are stored, if it begins again. -/
  | filtering (taskId : Option Int) (state : State) (file : WireFile) (start : Int) (reset : Bool)
  /-- It reads the lines of the file. -/
  | reading (taskId : Option Int) (state : State) (file : WireFile) (start : Int) (reset : Bool)
      (stored : List Text)
  | storing (taskId : Int) (state : State) (file : WireFile) (start : Int) (reset : Bool) (done : Scan)
  | returned (r : IngestReport) (file : WireFile)
  | raised (e : Failure)

/-- What a scan that is not written reports (`autosave.py:814-823`). -/
def dryReport (t : Transcript) (taskId : Option Int) (reset : Bool) (done : Scan) : IngestReport where
  status := if done.rows.isEmpty then .clean else .wouldIngest
  taskId := taskId
  path := t.path.text
  scannedTo := done.scannedTo
  added := done.rows.length
  resetCursor := reset
  preview := (done.rows.take 5).map fun r => (r.line, r.role, r.prepared.content.length)

/-- The next step of `ingest_transcript` (`autosave.py:727-848`), with the file as it is now. -/
def Passing.next (py : Python) (cfg : Config) (clk : Nat → Clock) (t : Transcript) (now : WireFile)
    (db : Db) : Passing → Passing × Db
  | .looking =>
      match knownTask py db t.project with
      | some id => (.loading (some id), db)
      | none => (if cfg.write then .naming else .loading none, db)
  | .naming =>
      match atomic (createProject py (clk 0) t.project) db with
      | (.error e, db) => (.raised e, db)
      | (.ok id, db) => (.loading (some id), db)
  | .loading taskId =>
      match state py taskId db with
      | .error e => (.raised e, db)
      | .ok s =>
          match Entry.ofJson ((Json.obj s.cursors).get? (cursorKey t.path)) with
          | .error e => (.raised e, db)
          | .ok entry => (.marking taskId s entry, db)
  | .marking taskId s entry =>
      match resumeAt t.rebuild entry now with
      | .error e => (.raised e, db)
      | .ok (.unchanged start) =>
          (.returned { status := .unchanged, taskId := taskId, path := t.path.text,
                       scannedTo := start } now, db)
      | .ok (.scan start reset) => (.filtering taskId s now start reset, db)
  | .filtering taskId s f start reset =>
      (.reading taskId s f start reset
        (if reset then storedWireDigests py taskId (cursorKey t.path) db else []), db)
  | .reading taskId s f start reset stored =>
      let known := fun digest => listed digest s.hashes || stored.contains digest
      let messages := wireCoalesced py start now.lines
      -- the marker stays the one that was taken before
      let seen := { f with lines := now.lines }
      match scan py known t.late messages.2 0 ⟨[], start, false⟩ messages.1 with
      | .error e => (.raised e, db)
      | .ok done =>
          match taskId with
          | none => (.returned (dryReport t none reset done) seen, db)
          | some id =>
              if !cfg.write then (.returned (dryReport t (some id) reset done) seen, db)
              else if done.rows.isEmpty && decide (done.scannedTo ≤ start) then
                (.returned { status := .clean, taskId := some id, path := t.path.text
                             scannedTo := done.scannedTo, resetCursor := reset } seen, db)
              else (.storing id s seen start reset done, db)
  | .storing id s f start reset done =>
      match atomic (commitPass cfg clk t id s f start reset done) db with
      | (.error e, db) => (.raised e, db)
      | (.ok r, db) => (.returned r f, db)
  | .returned r f => (.returned r f, db)
  | .raised e => (.raised e, db)

def Passing.outcome : Passing → Option (Except Failure IngestReport)
  | .returned r _ => some (.ok r)
  | .raised e => some (.error e)
  | _ => none

/-! ## A call nobody interrupts -/

theorem project_looked (clock : Clock) (create : Bool) (name : Text) (db : Db) :
    atomic (projectTaskByName py clock create name) db =
      match knownTask py db name with
      | some id => (.ok (some id, false), db)
      | none =>
          if create then
            match atomic (createProject py clock name) db with
            | (.error e, db) => (.error e, db)
            | (.ok id, db) => (.ok (some id, true), db)
          else (.ok (none, false), db) := by
  unfold knownTask
  cases known : projectTask? py db name with
  | some task => exact atomic_ok.mpr (project_known known)
  | none =>
    cases create with
    | false => exact atomic_ok.mpr (project_dry known)
    | true =>
      unfold atomic
      rw [project_eq, known]
      unfold createProject
      simp only [Option.map_none, if_true]
      cases made : TaskMemory.createTask py.toHost clock (Text.lit "Autosave: " ++ name) []
          [Text.lit "auto:" ++ name] (.obj []) db with
      | error e => rw [bind_of_error made]
      | ok out => rw [bind_of_ok made]; rfl

/-- What happens once the task is known. -/
theorem Turning.loaded {t : Turn} {taskId : Option Int} {mid : Db} {plan : Except Failure TurnPlan}
    {result : Except Failure SaveTurn × Db}
    (same : (match plan with
      | .error e => (.error e, mid)
      | .ok (.answer r) => (.ok r, mid)
      | .ok (.store id s p) => atomic (commitTurn cfg clk t id s p) mid) = result)
    (decides : planTurn py cfg t taskId mid = plan) :
    ∃ last, Relation.ReflTransGen (fun x y : Turning × Db => x.1.next py cfg clk t x.2 = y)
        (.loading taskId, mid) (last, result.2) ∧ last.outcome = some result.1 := by
  cases plan with
  | error e =>
    subst same
    refine ⟨.raised e, .single ?_, rfl⟩
    simp only [next, decides]
  | ok decided =>
    cases decided with
    | answer r =>
      subst same
      refine ⟨.returned r, .single ?_, rfl⟩
      simp only [next, decides]
    | store id s p =>
      have first : (loading taskId).next py cfg clk t mid = (.storing id s p, mid) := by
        simp only [next, decides]
      dsimp only at same
      obtain ⟨answer, left⟩ := result
      cases answer with
      | error e =>
        refine ⟨.raised e, .head first (.single ?_), rfl⟩
        simp only [next, same]
      | ok r =>
        refine ⟨.returned r, .head first (.single ?_), rfl⟩
        simp only [next, same]

/-- The steps of `save_turn` with no other in between. -/
theorem Turning.alone (py : Python) (cfg : Config) (clk : Nat → Clock) (t : Turn) (db : Db) :
    ∃ last, Relation.ReflTransGen (fun x y : Turning × Db => x.1.next py cfg clk t x.2 = y)
        (.looking, db) (last, (saveTurn py cfg clk t db).2) ∧
      last.outcome = some (saveTurn py cfg clk t db).1 := by
  generalize outcome : saveTurn py cfg clk t db = result
  unfold saveTurn at outcome
  rw [project_looked] at outcome
  cases known : knownTask py db (projectName t.cwd) with
  | some id =>
    rw [known] at outcome
    dsimp only at outcome
    generalize decides : planTurn py cfg t (some id) db = plan at outcome
    obtain ⟨last, steps, ended⟩ := loaded outcome decides
    refine ⟨last, .head ?_ steps, ended⟩
    simp only [next, known]
  | none =>
    rw [known] at outcome
    dsimp only at outcome
    by_cases write : cfg.write = true
    · have first : looking.next py cfg clk t db = (.naming, db) := by
        simp only [next, known, if_pos write]
      rw [if_pos write] at outcome
      cases made : atomic (createProject py (clk 2) (projectName t.cwd)) db with
      | mk answer mid =>
        rw [made] at outcome
        cases answer with
        | error e =>
          subst outcome
          refine ⟨.raised e, .head first (.single ?_), rfl⟩
          simp only [next, made]
        | ok id =>
          dsimp only at outcome
          generalize decides : planTurn py cfg t (some id) mid = plan at outcome
          obtain ⟨last, steps, ended⟩ := loaded outcome decides
          refine ⟨last, .head first (.head ?_ steps), ended⟩
          simp only [next, made]
    · rw [if_neg write] at outcome
      dsimp only at outcome
      generalize decides : planTurn py cfg t none db = plan at outcome
      obtain ⟨last, steps, ended⟩ := loaded outcome decides
      refine ⟨last, .head ?_ steps, ended⟩
      simp only [next, known, if_neg write]

/-- What happens once the task is known. -/
theorem Passing.loaded {t : Transcript} {f : WireFile} {taskId : Option Int} {mid : Db}
    {plan : Except Failure PassPlan} {result : Except Failure IngestReport × Db}
    (same : (match plan with
      | .error e => (.error e, mid)
      | .ok (.answer r) => (.ok r, mid)
      | .ok (.store id s f start reset done) =>
          atomic (commitPass cfg clk t id s f start reset done) mid) = result)
    (decides : planPass py cfg t f taskId mid = plan) :
    ∃ last, Relation.ReflTransGen (fun x y : Passing × Db => x.1.next py cfg clk t f x.2 = y)
        (.loading taskId, mid) (last, result.2) ∧ last.outcome = some result.1 := by
  unfold planPass at decides
  simp only [bind, Except.bind] at decides
  cases read : state py taskId mid with
  | error e =>
    rw [read] at decides
    obtain rfl : plan = .error e := decides.symm
    subst same
    refine ⟨.raised e, .single ?_, rfl⟩
    simp only [next, read]
  | ok s =>
    rw [read] at decides
    dsimp only at decides
    cases listed_ : Entry.ofJson ((Json.obj s.cursors).get? (cursorKey t.path)) with
    | error e =>
      rw [listed_] at decides
      obtain rfl : plan = .error e := decides.symm
      subst same
      refine ⟨.raised e, .single ?_, rfl⟩
      simp only [next, read, listed_]
    | ok entry =>
      have first : (loading taskId).next py cfg clk t f mid = (.marking taskId s entry, mid) := by
        simp only [next, read, listed_]
      rw [listed_] at decides
      dsimp only at decides
      cases resume : resumeAt t.rebuild entry f with
      | error e =>
        rw [resume] at decides
        obtain rfl : plan = .error e := decides.symm
        subst same
        refine ⟨.raised e, .head first (.single ?_), rfl⟩
        simp only [next, resume]
      | ok chosen =>
        rw [resume] at decides
        dsimp only at decides
        cases chosen with
        | unchanged start =>
          subst decides
          subst same
          refine ⟨.returned _ f, .head first (.single ?_), rfl⟩
          simp only [next, resume]
        | scan start reset =>
          have second : (marking taskId s entry).next py cfg clk t f mid =
              (.filtering taskId s f start reset, mid) := by
            simp only [next, resume]
          have third : (filtering taskId s f start reset).next py cfg clk t f mid =
              (.reading taskId s f start reset
                (if reset then storedWireDigests py taskId (cursorKey t.path) mid else []), mid) := rfl
          dsimp only at decides
          cases ran : scan py (fun digest => listed digest s.hashes ||
              (if reset then storedWireDigests py taskId (cursorKey t.path) mid else []).contains digest)
              t.late (wireCoalesced py start f.lines).2 0 ⟨[], start, false⟩
              (wireCoalesced py start f.lines).1 with
          | error e =>
            rw [ran] at decides
            obtain rfl : plan = .error e := decides.symm
            subst same
            refine ⟨.raised e, .head first (.head second (.head third (.single ?_))), rfl⟩
            simp only [next, ran]
          | ok done =>
            rw [ran] at decides
            cases taskId with
            | none =>
              subst decides
              subst same
              refine ⟨.returned _ f, .head first (.head second (.head third (.single ?_))), rfl⟩
              simp only [next, ran]
              rfl
            | some id =>
              dsimp only at decides
              by_cases dry : (!cfg.write) = true
              · rw [if_pos dry] at decides
                subst decides
                subst same
                refine ⟨.returned _ f, .head first (.head second (.head third (.single ?_))), rfl⟩
                simp only [next, ran, if_pos dry]
                rfl
              · rw [if_neg dry] at decides
                by_cases idle : (done.rows.isEmpty && decide (done.scannedTo ≤ start)) = true
                · rw [if_pos idle] at decides
                  subst decides
                  subst same
                  refine ⟨.returned _ f, .head first (.head second (.head third (.single ?_))), rfl⟩
                  simp only [next, ran, if_neg dry, if_pos idle]
                · rw [if_neg idle] at decides
                  subst decides
                  have fourth : (reading (some id) s f start reset
                      (if reset then storedWireDigests py (some id) (cursorKey t.path) mid else [])).next
                        py cfg clk t f mid = (.storing id s f start reset done, mid) := by
                    simp only [next, ran, if_neg dry, if_neg idle]
                  dsimp only at same
                  obtain ⟨answer, left⟩ := result
                  cases answer with
                  | error e =>
                    refine ⟨.raised e, .head first (.head second (.head third (.head fourth
                      (.single ?_)))), rfl⟩
                    simp only [next, same]
                  | ok r =>
                    refine ⟨.returned r f, .head first (.head second (.head third (.head fourth
                      (.single ?_)))), rfl⟩
                    simp only [next, same]

/-- The steps of `ingest_transcript` with no other in between, over a file that stays as it is. -/
theorem Passing.alone {t : Transcript} {f : WireFile} (file : t.file = some f) (py : Python)
    (cfg : Config) (clk : Nat → Clock) (db : Db) :
    ∃ last, Relation.ReflTransGen (fun x y : Passing × Db => x.1.next py cfg clk t f x.2 = y)
        (.looking, db) (last, (ingestTranscript py cfg clk t db).2) ∧
      last.outcome = some (ingestTranscript py cfg clk t db).1 := by
  generalize outcome : ingestTranscript py cfg clk t db = result
  unfold ingestTranscript at outcome
  rw [file] at outcome
  dsimp only at outcome
  rw [project_looked] at outcome
  cases known : knownTask py db t.project with
  | some id =>
    rw [known] at outcome
    dsimp only at outcome
    generalize decides : planPass py cfg t f (some id) db = plan at outcome
    obtain ⟨last, steps, ended⟩ := loaded outcome decides
    refine ⟨last, .head ?_ steps, ended⟩
    simp only [next, known]
  | none =>
    rw [known] at outcome
    dsimp only at outcome
    by_cases write : cfg.write = true
    · have first : looking.next py cfg clk t f db = (.naming, db) := by
        simp only [next, known, if_pos write]
      rw [if_pos write] at outcome
      cases made : atomic (createProject py (clk 0) t.project) db with
      | mk answer mid =>
        rw [made] at outcome
        cases answer with
        | error e =>
          subst outcome
          refine ⟨.raised e, .head first (.single ?_), rfl⟩
          simp only [next, made]
        | ok id =>
          dsimp only at outcome
          generalize decides : planPass py cfg t f (some id) mid = plan at outcome
          obtain ⟨last, steps, ended⟩ := loaded outcome decides
          refine ⟨last, .head first (.head ?_ steps), ended⟩
          simp only [next, made]
    · rw [if_neg write] at outcome
      dsimp only at outcome
      generalize decides : planPass py cfg t f none db = plan at outcome
      obtain ⟨last, steps, ended⟩ := loaded outcome decides
      refine ⟨last, .head ?_ steps, ended⟩
      simp only [next, known, if_neg write]

end Autosave

end Cmpath
