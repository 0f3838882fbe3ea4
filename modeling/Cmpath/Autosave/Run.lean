import Cmpath.Autosave.Change

/-!
# Runs of autosave

A store that calls of autosave lead to, among any calls of the two writers that record no
`autosave_state` fact themselves (`Run`). There the state of every task can be read and lists what was
saved (`Run.inv`); a property of states that every call keeps is kept by a run (`Moves.keeps`).
-/

namespace Cmpath
open Lib Lib.Txn

namespace Autosave

variable {py : Python} {cfg : Config} {clk : Nat → Clock} {db db' : Db} {id : Int}

/-! ## Calls -/

/-- Every task that is there has a state that can be read and lists what was saved. -/
structure Inv (py : Python) (ledger : List (Int × Turn)) (db : Db) : Prop where
  kept : Kept py.toHost db
  reads : ∀ id, (db.task? id).isSome → State.ofJson (stateValue py db id) = .ok (stateOf py db id)
  recorded : ∀ id, (db.task? id).isSome → Recorded ledger py db id (stateOf py db id)
  spelled : ∀ id, (db.task? id).isSome → (stateOf py db id).Spelled

/-- Every task that is there has a state that can be read. -/
structure Legible (py : Python) (db : Db) : Prop where
  kept : Kept py.toHost db
  reads : ∀ id, (db.task? id).isSome → State.ofJson (stateValue py db id) = .ok (stateOf py db id)

theorem Inv.legible {ledger : List (Int × Turn)} (h : Inv py ledger db) : Legible py db :=
  ⟨h.kept, h.reads⟩

/-- What a call leaves of every task that is there; a new one comes without a state. -/
structure Moves (py : Python) (saves : Int → Turn → Prop) (scans : Transcript → Prop) (db left : Db) :
    Prop where
  kept : Kept py.toHost left
  born : ∀ id, (left.task? id).isSome → (db.task? id).isSome ∨ stateOf py db id = .empty
  reads : ∀ id, (left.task? id).isSome →
    State.ofJson (stateValue py left id) = .ok (stateOf py left id)
  changes : ∀ id, (left.task? id).isSome →
    Change py saves scans db left id (stateOf py db id) (stateOf py left id)

theorem Moves.legible {saves : Int → Turn → Prop} {scans : Transcript → Prop} {left : Db}
    (h : Moves py saves scans db left) : Legible py left := ⟨h.kept, h.reads⟩

/-- A property of states that no state lacks at first and that a call keeps is kept for every task. -/
theorem Moves.keeps {saves : Int → Turn → Prop} {scans : Transcript → Prop} {left : Db}
    {P Q : Db → Int → State → Prop} (h : Moves py saves scans db left) (empty : ∀ id, P db id .empty)
    (change : ∀ {id s s'}, Change py saves scans db left id s s' → P db id s → Q left id s')
    (old : ∀ id, (db.task? id).isSome → P db id (stateOf py db id)) (id : Int)
    (here : (left.task? id).isSome) : Q left id (stateOf py left id) := by
  refine change (h.changes id here) ?_
  rcases h.born id here with alive | fresh
  · exact old id alive
  · rw [fresh]
    exact empty id

namespace Inv

variable {ledger more : List (Int × Turn)} {saves : Int → Turn → Prop} {scans : Transcript → Prop}
  {left : Db}

theorem start : Inv py [] .empty :=
  ⟨.empty, fun _ here => absurd here Bool.false_ne_true, fun _ here => absurd here Bool.false_ne_true,
    fun _ here => absurd here Bool.false_ne_true⟩

theorem moved (h : Inv py ledger db) (moves : Moves py saves scans db left) (turns : ledger ⊆ more)
    (said : ∀ id t, saves id t → (id, t) ∈ more) : Inv py more left :=
  ⟨moves.kept, moves.reads,
    moves.keeps (P := Recorded ledger py) (Q := Recorded more py) (fun _ => .empty)
      (fun c old => old.change c turns (said _)) h.recorded,
    moves.keeps (P := fun _ _ => State.Spelled) (Q := fun _ _ => State.Spelled) (fun _ => ⟨rfl, rfl, rfl⟩) Change.spelled h.spelled⟩

end Inv

namespace Legible

variable {s : State} {saves : Int → Turn → Prop} {scans : Transcript → Prop} {left mid : Db}

theorem state (h : Legible py db) (here : (db.task? id).isSome) :
    state py (some id) db = .ok (stateOf py db id) :=
  (state_ok_iff h.kept).mpr ⟨here, h.reads id here⟩

/-- A call that leaves the states and the rows alone. -/
theorem quiet (h : Legible py db) (kept : Kept py.toHost db')
    (born : ∀ id, (db'.task? id).isSome → (db.task? id).isSome ∨ db.sequence.tasks < id)
    (apart : ∀ id, Apart id db db') : Moves py saves scans db db' := by
  have value : ∀ id, (db'.task? id).isSome → stateValue py db' id = stateValue py db id := by
    intro id here
    unfold stateValue
    rw [(apart id).state here]
  have fresh : ∀ id, db.sequence.tasks < id → stateValue py db id = .null := by
    intro id new
    have none_ : db.facts.filter (fun f => f.place == (id, stateKey)) = [] := by
      rw [List.filter_eq_nil_iff]
      intro f member hit
      have given := h.kept.reachable.attached.facts f member
      have task : f.taskId = id := congrArg Prod.fst (eq_of_beq hit)
      omega
    unfold stateValue Db.lastFact
    rw [none_]
    rfl
  refine ⟨kept, fun id here => (born id here).imp_right fun new => stateOf_eq ?_, fun id here => ?_,
    fun id here => ?_⟩
  · rw [fresh id new]
    rfl
  · have same : stateOf py db' id = stateOf py db id := by
      unfold stateOf
      rw [value id here]
    rw [same, value id here]
    rcases born id here with alive | new
    · exact h.reads id alive
    · unfold stateOf
      rw [fresh id new]
      rfl
  · have same : stateOf py db' id = stateOf py db id := by
      unfold stateOf
      rw [value id here]
    rw [same]
    exact .keep ((apart id).rows here)

/-- A batch of a task that is there. -/
theorem batch {new : List MessageRow} (h : Legible py db) (c : Committed py cfg db left id new s)
    (change : ∀ e, s.lastEvidence = some e →
      Change py saves scans db left id (stateOf py db id) (s.reread py cfg e)) :
    Moves py saves scans db left := by
  have same : ∀ other, (left.task? other).isSome → (other = id → s.lastEvidence = none) →
      stateValue py left other = stateValue py db other := by
    intro other here quiet
    by_cases mine : other = id
    · unfold stateValue Db.lastFact
      rw [c.unrecorded (quiet mine)]
    · unfold stateValue
      rw [(c.apart mine).state here]
  have kept : ∀ other, (left.task? other).isSome → (other = id → s.lastEvidence = none) →
      State.ofJson (stateValue py left other) = .ok (stateOf py left other) ∧
        Change py saves scans db left other (stateOf py db other) (stateOf py left other) := by
    intro other here quiet
    have value := same other here quiet
    have equal_ : stateOf py left other = stateOf py db other := by
      unfold stateOf
      rw [value]
    rw [equal_, value]
    exact ⟨h.reads other (c.here.mp here), .keep fun m member _ => c.old member⟩
  have both : ∀ other, (left.task? other).isSome →
      State.ofJson (stateValue py left other) = .ok (stateOf py left other) ∧
        Change py saves scans db left other (stateOf py db other) (stateOf py left other) := by
    intro other here
    by_cases mine : other = id
    · subst mine
      cases last : s.lastEvidence with
      | none => exact kept other here fun _ => last
      | some e =>
        rw [stateOf_eq (c.state last)]
        exact ⟨c.state last, change e last⟩
    · exact kept other here fun same => absurd same mine
  exact ⟨c.kept, fun other here => .inl (c.here.mp here), fun other here => (both other here).1,
    fun other here => (both other here).2⟩

/-- A call of the two writers that records no state fact. -/
theorem call (h : Legible py db) (c : Call)
    (other : ∀ g ∈ Call.gives py.toHost c db, g.stored.2 ≠ stateKey) :
    Moves py saves scans db ((callStep c).next py.toHost db) :=
  h.quiet (h.kept.call c) (fun _ here => h.kept.born c here)
    fun _ => Apart.of_call h.kept c fun g given same => other g given (congrArg Prod.snd same)

/-- The project task is found or made, and nothing else changes. -/
theorem project {clock : Clock} {create : Bool} {name : Text} {out : Option Int × Bool}
    (h : Legible py db) (run : projectTaskByName py clock create name db = .ok (out, db')) :
    Moves py saves scans db db' ∧ (∀ id, out.1 = some id → (db'.task? id).isSome) ∧
      db'.facts = db.facts ∧ db'.messages = db.messages := by
  have still : Moves py saves scans db db :=
    h.quiet h.kept (fun _ here => .inl here) fun _ => .refl db
  cases known : projectTask? py db name with
  | some task =>
    rw [project_known known] at run
    cases run
    exact ⟨still, fun id same => Option.some.inj same ▸ projectTask_here known, rfl, rfl⟩
  | none =>
    cases create with
    | false =>
      rw [project_dry known] at run
      cases run
      exact ⟨still, nofun, rfl, rfl⟩
    | true =>
      obtain ⟨id, rfl, made⟩ := project_made known run
      rw [project_eq, known] at run
      obtain ⟨_, mid, create_, rest⟩ := bind_ok.mp run
      obtain ⟨same, rfl⟩ := pure_ok.mp rest
      cases same
      have made_ : (MemoryOp.createTask _ _ _ _).run py.toHost clock db = .ok (_, db') :=
        responding_ok.mpr ⟨_, create_, rfl⟩
      have kept : Kept py.toHost db' := h.kept.memory made_
      have step : FactStep [] db db' := .of_sparing ((project_founds _ _ _ _ _ _
        (by rw [project_eq, known]; exact run)).mono fun _ => Write.Founding.sparing)
      refine ⟨h.quiet kept (fun other here => ?_) fun other => ?_, ?_, made.facts, made.messages⟩
      · by_cases given : other ≤ db.sequence.tasks
        · exact .inl (step.tasks other given here)
        · exact .inr (by omega)
      · exact Apart.of_factStep step List.not_mem_nil
      · intro other same
        obtain rfl := Option.some.inj same
        exact made.here

theorem projected {clock : Clock} {create : Bool} {name : Text} {out : Option Int × Bool}
    (h : Legible py db) (run : projectTaskByName py clock create name db = .ok (out, db')) :
    (∀ id, out.1 = some id → (db'.task? id).isSome) ∧ db'.facts = db.facts ∧
      db'.messages = db.messages := by
  have both : Moves py (fun _ _ => False) (fun _ => False) db db' ∧ _ := h.project run
  exact both.2

theorem found {clock : Clock} {create : Bool} {name : Text} {out : Option Int × Bool}
    (h : Legible py db) (run : projectTaskByName py clock create name db = .ok (out, db')) :
    Legible py db' := by
  have moves : Moves py (fun _ _ => False) (fun _ => False) db db' := (h.project run).1
  exact moves.legible

/-- The project step and a batch after it. -/
theorem founded (first : Moves py saves scans db mid) (facts : mid.facts = db.facts)
    (messages : mid.messages = db.messages) (second : Moves py saves scans mid left)
    (tasks : ∀ id, (left.task? id).isSome → (mid.task? id).isSome) :
    Moves py saves scans db left := by
  have same : ∀ id, stateOf py mid id = stateOf py db id := by
    intro id
    unfold stateOf stateValue Db.lastFact
    rw [facts]
  refine ⟨second.kept, fun id here => first.born id (tasks id here), second.reads, fun id here => ?_⟩
  have change := (second.changes id here).of_messages messages
  rwa [same id] at change

end Legible

/-- The project step records nothing. -/
theorem Inv.found {ledger : List (Int × Turn)} {clock : Clock} {create : Bool} {name : Text}
    {out : Option Int × Bool} (h : Inv py ledger db)
    (run : projectTaskByName py clock create name db = .ok (out, db')) : Inv py ledger db' := by
  have moves : Moves py (fun _ _ => False) (fun _ => False) db db' := (h.legible.project run).1
  exact h.moved moves (List.Subset.refl _) nofun

/-- What `save_turn` may plan. -/
inductive TurnPlanned (py : Python) (cfg : Config) (t : Turn) (taskId : Option Int) (db : Db) :
    TurnPlan → Prop
  | empty {s : State} (read : state py taskId db = .ok s)
      (blank : prepareText py t.prompt maxMessageChars = none) :
      TurnPlanned py cfg t taskId db (.answer (.empty taskId))
  | duplicate {s : State} {p : Prepared} (read : state py taskId db = .ok s)
      (prepared : prepareText py t.prompt maxMessageChars = some p) (seen : t.seenIn s p = true) :
      TurnPlanned py cfg t taskId db (.answer (.duplicate taskId t.key))
  | dry {s : State} {p : Prepared} (read : state py taskId db = .ok s)
      (prepared : prepareText py t.prompt maxMessageChars = some p) (fresh : t.seenIn s p = false)
      (unwritten : taskId = none ∨ cfg.write = false) :
      TurnPlanned py cfg t taskId db
        (.answer (.wouldSave taskId t.key p.content.length p.truncated))
  | store {id : Int} {s : State} {p : Prepared} (read : state py taskId db = .ok s)
      (prepared : prepareText py t.prompt maxMessageChars = some p) (fresh : t.seenIn s p = false)
      (task : taskId = some id) (write : cfg.write = true) :
      TurnPlanned py cfg t taskId db (.store id s p)

theorem planTurn_planned {t : Turn} {taskId : Option Int} {plan : TurnPlan}
    (h : planTurn py cfg t taskId db = .ok plan) : TurnPlanned py cfg t taskId db plan := by
  unfold planTurn at h
  obtain ⟨s, read, h⟩ := except_bind_ok.mp h
  cases prepared : prepareText py t.prompt maxMessageChars with
  | none =>
    rw [prepared] at h
    cases h
    exact .empty read prepared
  | some p =>
    rw [prepared] at h
    dsimp only at h
    by_cases seen : (listed t.key s.seen || listed p.digest s.hashes) = true
    · rw [if_pos seen] at h
      cases h
      exact .duplicate read prepared seen
    · rw [if_neg seen] at h
      have fresh : t.seenIn s p = false := Bool.eq_false_iff.mpr seen
      cases taskId with
      | none =>
        cases h
        exact .dry read prepared fresh (.inl rfl)
      | some id =>
        dsimp only at h
        by_cases write : cfg.write = true
        · rw [if_pos write] at h
          cases h
          exact .store read prepared fresh rfl write
        · rw [if_neg write] at h
          cases h
          exact .dry read prepared fresh (.inr (by simpa using write))

/-! ## Passes that return -/

/-- A survey is of a file that is as it was, or of one that was scanned. -/
theorem survey_ok {t : Transcript} {f : WireFile} {taskId : Option Int} {v : Survey}
    (h : survey py t f taskId db = .ok v) :
    (v.scan = none ∧ state py taskId db = .ok v.state ∧
      ∃ e, Entry.ofJson ((Json.obj v.state.cursors).get? (cursorKey t.path)) = .ok e ∧
        resumeAt t.rebuild e f = .ok (.unchanged v.start)) ∨
    ∃ done, v.scan = some done ∧ Planned py cfg t f taskId db v.state v.start v.reset done := by
  unfold survey at h
  obtain ⟨s, found, h⟩ := except_bind_ok.mp h
  obtain ⟨entry, read, h⟩ := except_bind_ok.mp h
  obtain ⟨resume, chosen, h⟩ := except_bind_ok.mp h
  cases resume with
  | unchanged start =>
    obtain rfl := Except.ok.inj h
    exact .inl ⟨rfl, found, entry, read, chosen⟩
  | scan start reset =>
    obtain ⟨done, ran, h⟩ := except_bind_ok.mp h
    obtain rfl := Except.ok.inj h
    refine .inr ⟨done, rfl, found, ?_, ran⟩
    rw [read]
    show (resumeAt t.rebuild entry f).toOption = some (.scan start reset)
    rw [chosen]
    rfl

/-- What a batch reports. -/
theorem commitPass_report {t : Transcript} {f : WireFile} {start : Int} {s : State} {left : Db} {reset : Bool}
    {done : Scan} {r : IngestReport}
    (h : commitPass cfg clk t id s f start reset done db = .ok (r, left)) :
    r.taskId = some id ∧ r.scannedTo = done.scannedTo ∧ r.added = done.rows.length ∧
      r.status ≠ .unchanged := by
  unfold commitPass at h
  obtain ⟨_, _, _, h⟩ := bind_ok.mp h
  obtain ⟨_, _, _, h⟩ := bind_ok.mp h
  obtain ⟨rfl, _⟩ := pure_ok.mp h
  refine ⟨rfl, rfl, rfl, ?_⟩
  dsimp only
  split <;> exact nofun

/-- What a pass that writes and returns did: nothing where the file is as it was, or it carried out its
    plan. -/
inductive Passed (py : Python) (cfg : Config) (t : Transcript) (f : WireFile) (mid left : Db) (id : Int)
    (s : State) (r : IngestReport) : Prop
  | unchanged {e : Entry} (status : r.status = .unchanged) (still : left = mid)
      (read : Entry.ofJson ((Json.obj s.cursors).get? (cursorKey t.path)) = .ok e)
      (same : resumeAt t.rebuild e f = .ok (.unchanged r.scannedTo)) : Passed py cfg t f mid left id s r
  | scanned {start : Int} {reset : Bool} {done : Scan} (status : r.status ≠ .unchanged)
      (planned : Planned py cfg t f (some id) mid s start reset done)
      (upTo : r.scannedTo = done.scannedTo) (added : r.added = done.rows.length)
      (old : ∀ m ∈ mid.messages, m ∈ left.messages)
      (stored : ∀ row ∈ done.rows, ∃ m ∈ left.messages, m.taskId = id ∧
        m.content = row.prepared.content) : Passed py cfg t f mid left id s r

theorem Legible.ingest_ok {t : Transcript} {f : WireFile} {r : IngestReport} {left : Db}
    (h : Legible py db) (write : cfg.write = true) (file : t.file = some f)
    (run : ingestTranscript py cfg clk t db = (.ok r, left)) :
    ∃ id new mid, projectTaskByName py (clk 0) true t.project db = .ok ((some id, new), mid) ∧
      (mid.task? id).isSome ∧ r.taskId = some id ∧
        Passed py cfg t f mid left id (stateOf py mid id) r := by
  have wet : cfg = cfg.wet := by
    cases cfg
    cases write
    rfl
  rw [wet] at run
  rcases project_wet py (clk 0) t.project (Regular.of_reachable h.kept.reachable) with
    ⟨_, id, new, mid, project, found⟩ | ⟨_, e, project⟩
  · have legible := h.found (atomic_ok.mp project)
    refine ⟨id, new, mid, atomic_ok.mp project, found.here, ?_⟩
    cases ran : survey py t f (some id) mid with
    | error e =>
      have failed : (ingestTranscript py cfg.wet clk t db).1 = .error e :=
        ingest_wet_error file project ran
      rw [run] at failed
      cases failed
    | ok v =>
      obtain same : stateOf py mid id = v.state :=
        Except.ok.inj ((legible.state found.here).symm.trans (survey_state ran))
      rw [ingest_wet file project ran] at run
      unfold Survey.plan at run
      rw [same]
      have seen : _ ∨ ∃ done, v.scan = some done ∧
        Planned py cfg t f (some id) mid v.state v.start v.reset done := survey_ok ran
      rcases seen with ⟨none_, _, e, read, chosen⟩ | ⟨done, scanned, planned⟩
      · unfold Survey.report at run
        rw [none_] at run
        obtain ⟨report, rfl⟩ := Prod.mk.inj run
        obtain rfl := Except.ok.inj report
        exact ⟨rfl, .unchanged rfl rfl read chosen⟩
      · rw [scanned] at run
        dsimp only at run
        split at run
        · rename_i idle
          rw [Bool.and_eq_true, List.isEmpty_iff] at idle
          obtain ⟨report, rfl⟩ := Prod.mk.inj run
          obtain rfl := Except.ok.inj report
          refine ⟨rfl, .scanned nofun planned rfl (by rw [idle.1]; rfl) (fun _ row => row) ?_⟩
          rw [idle.1]
          exact nofun
        · have commit := atomic_ok.mp run
          obtain ⟨task, upTo, added, status⟩ := commitPass_report commit
          obtain ⟨rows, last, same', _, committed⟩ := commitPass_committed legible.kept commit
          refine ⟨task, .scanned status planned upTo added (fun m row => committed.old row) ?_⟩
          intro row listed_
          obtain ⟨m, stored, own, _, content, _⟩ := stored_of_rows same' listed_
          refine ⟨m, ?_, own, content⟩
          rw [committed.messages]
          exact List.mem_append_right _ stored
  · have failed : (ingestTranscript py cfg.wet clk t db).1 = .error e := by
      unfold ingestTranscript
      rw [file]
      dsimp only
      rw [show cfg.wet.write = true from rfl, project]
    rw [run] at failed
    cases failed

/-! ## Runs -/

/-- The turn a call saved, with its task. -/
def Turn.ledger (t : Turn) : Except Failure SaveTurn → List (Int × Turn)
  | .ok (.saved id _ _ _) => [(id, t)]
  | _ => []

/-- The stores that calls of autosave lead to, each call with settings of its own, among calls of the
    two writers that record no state fact; with the turns saved. -/
inductive Run (py : Python) : List (Int × Turn) → Db → Prop
  | start : Run py [] .empty
  | call {ledger : List (Int × Turn)} {db : Db} (run : Run py ledger db) (c : Call)
      (other : ∀ g ∈ Call.gives py.toHost c db, g.stored.2 ≠ stateKey) :
      Run py ledger ((callStep c).next py.toHost db)
  | turn {ledger : List (Int × Turn)} {db : Db} (run : Run py ledger db) (cfg : Config)
      (clk : Nat → Clock) (t : Turn) :
      Run py (ledger ++ t.ledger (saveTurn py cfg clk t db).1) (saveTurn py cfg clk t db).2
  | pass {ledger : List (Int × Turn)} {db : Db} (run : Run py ledger db) (cfg : Config)
      (clk : Nat → Clock) (t : Transcript) : Run py ledger (ingestTranscript py cfg clk t db).2

namespace Legible

/-- `save_turn`. -/
theorem turn (h : Legible py db) (cfg : Config) (clk : Nat → Clock) (t : Turn) :
    Moves py (fun id u => (id, u) ∈ t.ledger (saveTurn py cfg clk t db).1) (fun _ => False) db
      (saveTurn py cfg clk t db).2 := by
  generalize outcome : saveTurn py cfg clk t db = result
  unfold saveTurn at outcome
  cases project : projectTaskByName py (clk 2) cfg.write (projectName t.cwd) db with
  | error e =>
    rw [atomic_of_error project] at outcome
    subst outcome
    exact h.quiet h.kept (fun _ here => .inl here) fun _ => .refl db
  | ok out =>
    obtain ⟨⟨taskId, new⟩, mid⟩ := out
    rw [atomic_ok.mpr project] at outcome
    have first : ∀ {saves : Int → Turn → Prop} {scans : Transcript → Prop},
        Moves py saves scans db mid := (h.project project).1
    obtain ⟨named, facts, messages⟩ := (h.projected project)
    dsimp only at outcome
    cases run : planTurn py cfg t taskId mid with
    | error e =>
      rw [run] at outcome
      dsimp only at outcome
      subst outcome
      exact first
    | ok plan =>
      rw [run] at outcome
      cases planTurn_planned run with
      | empty | duplicate | dry =>
        subst outcome
        exact first
      | @store id s p read prepared fresh task write =>
        obtain rfl := task
        dsimp only at outcome
        cases commit : commitTurn cfg clk t id s p mid with
        | error e =>
          rw [atomic_of_error commit] at outcome
          subst outcome
          exact first
        | ok done =>
          obtain ⟨r, left⟩ := done
          rw [atomic_ok.mpr commit] at outcome
          subst outcome
          have kept := h.found project
          obtain ⟨m, rfl, _, content, _, _, committed⟩ := commitTurn_committed kept.kept commit
          obtain rfl : stateOf py mid id = s :=
            Except.ok.inj ((kept.state (named id rfl)).symm.trans read)
          have sound : (((stateOf py mid id).turned cfg t.key p.digest).payload cfg m.id).sound = true := by
            rcases committed.facts with ⟨_, none_⟩ | ⟨_, e, _, _, same, _, sound⟩
            · cases none_
            · cases same
              exact sound
          refine founded first facts messages (kept.batch committed fun e last => ?_)
            fun _ here => committed.here.mp here
          obtain rfl := Option.some.inj last
          exact .turn (List.mem_singleton.mpr rfl) prepared fresh committed.messages
            (committed.own m List.mem_cons_self) content sound

/-- `ingest_transcript`. -/
theorem pass (h : Legible py db) (cfg : Config) (clk : Nat → Clock) (t : Transcript) :
    Moves py (fun _ _ => False) (fun u => u = t) db (ingestTranscript py cfg clk t db).2 := by
  have still : Moves py (fun _ _ => False) (fun u => u = t) db db :=
    h.quiet h.kept (fun _ here => .inl here) fun _ => .refl db
  unfold ingestTranscript
  cases file : t.file with
  | none => exact still
  | some f =>
    dsimp only
    cases project : projectTaskByName py (clk 0) cfg.write t.project db with
    | error e =>
      rw [atomic_of_error project]
      exact still
    | ok out =>
      obtain ⟨⟨taskId, new⟩, mid⟩ := out
      rw [atomic_ok.mpr project]
      have first : Moves py (fun _ _ => False) (fun u => u = t) db mid := (h.project project).1
      obtain ⟨named, facts, messages⟩ := h.projected project
      dsimp only
      cases run : planPass py cfg t f taskId mid with
      | error e => exact first
      | ok plan =>
        rcases planPass_ok run with ⟨r, _, _, rfl, _⟩ | ⟨s, start, reset, done, planned,
          ⟨r, rfl, _⟩ | ⟨id, rfl, _, rfl⟩⟩
        · exact first
        · exact first
        · dsimp only
          cases commit : commitPass cfg clk t id s f start reset done mid with
          | error e =>
            rw [atomic_of_error commit]
            exact first
          | ok out =>
            obtain ⟨r, left⟩ := out
            rw [atomic_ok.mpr commit]
            have kept := h.found project
            obtain rfl : stateOf py mid id = s :=
              Except.ok.inj ((kept.state (named id rfl)).symm.trans planned.state)
            obtain ⟨new, last, same, evidence, committed⟩ := commitPass_committed kept.kept commit
            refine founded first facts messages (kept.batch committed fun e some_ => ?_)
              fun _ here => committed.here.mp here
            obtain rfl : last = some e := some_
            refine .pass rfl file planned rfl committed.messages same ?_ ?_
            · rcases evidence with ⟨none_, last⟩ | ⟨e', equal_, stored⟩
              · exact .inl ⟨none_, last.symm⟩
              · obtain rfl := Option.some.inj equal_
                exact .inr stored
            · rcases committed.facts with ⟨_, none_⟩ | ⟨_, e', _, _, same, _, sound⟩
              · cases none_
              · cases same
                exact sound

end Legible

theorem Run.inv {ledger : List (Int × Turn)} (run : Run py ledger db) : Inv py ledger db := by
  induction run with
  | start => exact .start
  | call _ c other ih =>
    have moves : Moves py (fun _ _ => False) (fun _ => False) _ _ := ih.legible.call c other
    exact ih.moved moves (List.Subset.refl _) nofun
  | turn _ cfg clk t ih =>
    exact ih.moved (ih.legible.turn cfg clk t) (List.subset_append_left _ _)
      fun _ _ said => List.mem_append_right _ said
  | pass _ cfg clk t ih => exact ih.moved (ih.legible.pass cfg clk t) (List.Subset.refl _) nofun

end Autosave

end Cmpath
