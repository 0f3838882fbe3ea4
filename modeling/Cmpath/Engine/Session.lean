import Cmpath.Engine.Operation

/-!
# Sessions

`Run` and `Session.Tool` (`native/engine/harness.go:580-638`) are programs over the operations: each
of their transactions, and each call of a callback, is a step of its own, other writers run between
any two of them, and a program may stop for good after any of them.
-/

namespace Cmpath
open Lib Lib.Txn

/-- The characters of a text. -/
def textString (t : Text) : String :=
  String.ofList (t.filterMap fun | .char c => some c | .stray _ => none)

/-- What a session call fails with: an error of the engine, the callback's own, or a cancelled
    context. -/
inductive SessionError where
  | engine (failure : Failure)
  | callback
  | cancelled
  deriving DecidableEq

/-! ## Session.Tool -/

/-- The arguments of `Session.Tool` and the session's turn; `execute` tells whether there is a
    callback. -/
structure ToolRequest where
  requestId : Text
  generation : Int
  callId : Text
  name : Text
  args : Json
  execute : Bool := true

/-- Where a `Session.Tool` call is. -/
inductive ToolStage where
  | entered
  | intended
  | leased (token : Text)
  | executed (token : Text) (result : Json)
  | returned (outcome : Except SessionError Json)

/-- A stage, the database and the callbacks run on the way. -/
structure ToolMove where
  stage : ToolStage
  db : Db
  executions : List (Text × Text) := []

/-- `StartTool` and what its answer is worth (`harness.go:615-628`). -/
def enterTool (host : Host) (r : ToolRequest) (db : Db) : ToolMove :=
  if !r.execute then
    { stage := .returned (.error (.engine (.problem .invalid "tool callback is required")))
      db := db }
  else
    match atomic (startTool host r.requestId r.generation r.callId r.name r.args) db with
    | (.error e, db') => { stage := .returned (.error (.engine e)), db := db' }
    | (.ok call, db') =>
        if call.status = .completed then { stage := .returned (.ok call.result), db := db' }
        else if !call.created then
          { stage := .returned (.error (.engine (.problem .indeterminateTool
              ("reconcile tool " ++ textString r.callId ++ " before retry"))))
            db := db' }
        else { stage := .intended, db := db' }

/-- `ActionEligible` (`harness.go:629-632`). -/
def leaseTool (host : Host) (clk : Clock) (r : ToolRequest) (db : Db) : ToolMove :=
  match atomic (actionEligible host clk r.requestId r.generation r.callId 5000) db with
  | (.error e, db') => { stage := .returned (.error (.engine e)), db := db' }
  | (.ok lease, db') => { stage := .leased lease.token, db := db' }

/-- `execute()` (`harness.go:633-636`). -/
def callTool (answer : Option Json) (r : ToolRequest) (db : Db) (token : Text) : ToolMove :=
  match answer with
  | none =>
      { stage := .returned (.error .callback), db := db, executions := [(r.requestId, r.callId)] }
  | some result =>
      { stage := .executed token result, db := db, executions := [(r.requestId, r.callId)] }

/-- `FinishTool` (`harness.go:637-638`). -/
def recordTool (host : Host) (clk : Clock) (r : ToolRequest) (db : Db) (token : Text)
    (result : Json) : ToolMove :=
  match atomic (finishTool host clk r.requestId r.generation r.callId result [token]) db with
  | (.error e, db') => { stage := .returned (.error (.engine e)), db := db' }
  | (.ok call, db') => { stage := .returned (.ok call.result), db := db' }

/-- The next step of `Session.Tool` (`harness.go:614-639`); `answer` is what the callback returns
    if this step calls it, `none` for an error. -/
def toolMove (host : Host) (clk : Clock) (answer : Option Json) (r : ToolRequest) (db : Db) :
    ToolStage → ToolMove
  | .entered => enterTool host r db
  | .intended => leaseTool host clk r db
  | .leased token => callTool answer r db token
  | .executed token result => recordTool host clk r db token result
  | .returned outcome => { stage := .returned outcome, db := db }

/-! ## Run -/

/-- The arguments of `Run`; `complete` tells whether there is a callback. -/
structure RunRequest where
  request : Request
  complete : Bool := true

/-- Where a `Run` is. -/
inductive RunStage where
  | entered
  | begun (turn : Turn)
  | replied (turn : Turn) (reply : Reply)
  | returned (outcome : Except SessionError Turn)

/-- A stage, the database, the request identifiers `Begin` created on the way and those whose
    callback ran. -/
structure RunMove where
  stage : RunStage
  db : Db
  creations : List Text := []
  completions : List Text := []

/-- The identifier of a turn that was created. -/
def Turn.creation (t : Turn) : List Text := if t.created then [t.requestId] else []

/-- `Begin` and what its answer is worth (`harness.go:581-597`). -/
def enterRun (host : Host) (clk : Clock) (cancelled : Bool) (r : RunRequest) (db : Db) : RunMove :=
  if cancelled then { stage := .returned (.error .cancelled), db := db }
  else if !r.complete then
    { stage := .returned (.error (.engine (.problem .invalid "completion callback is required")))
      db := db }
  else
    match atomic (begin host clk r.request []) db with
    | (.error e, db') => { stage := .returned (.error (.engine e)), db := db' }
    | (.ok turn, db') =>
        if turn.status = .committed then
          { stage := .returned (.ok turn), db := db', creations := turn.creation }
        else if !turn.created then
          { stage := .returned (.error (.engine (.problem .inProgress
              "inspect and explicitly recover the pending turn")))
            db := db' }
        else { stage := .begun turn, db := db', creations := turn.creation }

/-- `complete(ctx, session)` (`harness.go:598-601`). -/
def completeRun (answer : Option Reply) (turn : Turn) (db : Db) : RunMove :=
  match answer with
  | none => { stage := .returned (.error .callback), db := db, completions := [turn.requestId] }
  | some reply => { stage := .replied turn reply, db := db, completions := [turn.requestId] }

/-- `Commit` (`harness.go:602-605`). -/
def commitRun (host : Host) (clk : Clock) (cancelled : Bool) (turn : Turn) (reply : Reply)
    (db : Db) : RunMove :=
  if cancelled then { stage := .returned (.error .cancelled), db := db }
  else
    match atomic (commit host clk turn.requestId turn.generation reply) db with
    | (.error e, db') => { stage := .returned (.error (.engine e)), db := db' }
    | (.ok done, db') => { stage := .returned (.ok done), db := db' }

/-- The next step of `Run` (`harness.go:580-606`); `answer` is what the callback returns if this
    step calls it. -/
def runMove (host : Host) (clk : Clock) (cancelled : Bool) (answer : Option Reply) (r : RunRequest)
    (db : Db) : RunStage → RunMove
  | .entered => enterRun host clk cancelled r db
  | .begun turn => completeRun answer turn db
  | .replied turn reply => commitRun host clk cancelled turn reply db
  | .returned outcome => { stage := .returned outcome, db := db }

/-! ## Everything on one database -/

/-- The database, the session calls under way, and what was created and called so far. -/
structure Sys where
  db : Db := .empty
  tools : List (ToolRequest × ToolStage) := []
  runs : List (RunRequest × RunStage) := []
  executions : List (Text × Text) := []
  creations : List Text := []
  completions : List Text := []

/-- The identifier a response says was created. -/
def Response.creation : Except Failure Response → List Text
  | .ok (.turn t) => t.creation
  | _ => []

/-- What may happen next: a transaction of anybody, a new session call, a step of one. -/
inductive Event where
  | transaction (step : Step)
  | enterTool (r : ToolRequest)
  | tool (k : Nat) (clk : Clock) (answer : Option Json)
  | enterRun (r : RunRequest)
  | run (k : Nat) (clk : Clock) (cancelled : Bool) (answer : Option Reply)

/-- The state after a step of one `Session.Tool` call. -/
def Sys.afterTool (s : Sys) (k : Nat) (r : ToolRequest) (m : ToolMove) : Sys :=
  { s with
    db := m.db
    tools := s.tools.set k (r, m.stage)
    executions := s.executions ++ m.executions }

/-- The state after a step of one `Run`. -/
def Sys.afterRun (s : Sys) (k : Nat) (r : RunRequest) (m : RunMove) : Sys :=
  { s with
    db := m.db
    runs := s.runs.set k (r, m.stage)
    creations := s.creations ++ m.creations
    completions := s.completions ++ m.completions }

/-- The next state. -/
def Sys.next (host : Host) (s : Sys) : Event → Sys
  | .transaction step =>
      { s with
        db := step.next host s.db
        creations := s.creations ++ Response.creation (step.exec host s.db).1 }
  | .enterTool r => { s with tools := s.tools ++ [(r, .entered)] }
  | .tool k clk answer =>
      match s.tools[k]? with
      | none => s
      | some (r, stage) => s.afterTool k r (toolMove host clk answer r s.db stage)
  | .enterRun r => { s with runs := s.runs ++ [(r, .entered)] }
  | .run k clk cancelled answer =>
      match s.runs[k]? with
      | none => s
      | some (r, stage) => s.afterRun k r (runMove host clk cancelled answer r s.db stage)

/-- The state after a sequence of events. -/
def runEvents (host : Host) (s : Sys) (events : List Event) : Sys := events.foldl (Sys.next host) s

/-- What holds at first and after every event holds after every run. -/
theorem runEvents_inv {host : Host} {P : Sys → Prop} {allowed : Event → Prop}
    (preserved : ∀ s event, allowed event → P s → P (s.next host event)) :
    ∀ {events : List Event} {s : Sys}, (∀ event ∈ events, allowed event) → P s →
      P (runEvents host s events)
  | [], _, _, start => start
  | event :: rest, s, all, start => by
      have later : ∀ e ∈ rest, allowed e := fun e member => all e (List.mem_cons_of_mem _ member)
      show P (runEvents host (s.next host event) rest)
      exact runEvents_inv preserved later (preserved s event (all event List.mem_cons_self) start)

/-! ## Session calls as operations -/

theorem atomic_responding {α : Type} (respond : α → Response) (t : Tx α) (db : Db) :
    atomic (responding respond t) db = ((atomic t db).1.map respond, (atomic t db).2) := by
  unfold atomic responding
  cases run : t db with
  | error e =>
    rw [bind_of_error run]
    rfl
  | ok r =>
    rw [bind_of_ok run]
    rfl

/-- The transaction of an operation as the step of that operation. -/
theorem exec_of_atomic {α : Type} {host : Host} {clk : Clock} {op : Op} {respond : α → Response}
    {t : Tx α} (same : op.run host clk = responding respond t) (db : Db) :
    Step.exec host ⟨clk, .engine op⟩ db = ((atomic t db).1.map respond, (atomic t db).2) := by
  unfold Step.exec
  show atomic (op.run host clk) db = _
  rw [same, atomic_responding]

/-- An engine operation that writes no message but a turn's own. -/
def Step.noAppend (step : Step) : Prop :=
  ∃ op, step.action = .engine op ∧ ∀ inputs, op ≠ .appendBatch inputs

/-- One transaction that is allowed, or none; `created` is what it created. -/
def Follows (host : Host) (allowed : Step → Prop) (created : List Text) (a b : Db) : Prop :=
  (b = a ∧ created = []) ∨
    ∃ step : Step, allowed step ∧ b = step.next host a ∧
      created = Response.creation (step.exec host a).1

namespace Follows

variable {host : Host} {a b : Db}

theorem same {allowed : Step → Prop} (db : Db) : Follows host allowed [] db db := .inl ⟨rfl, rfl⟩

theorem of_step {allowed : Step → Prop} {step : Step} (h : allowed step) (db : Db) :
    Follows host allowed (Response.creation (step.exec host db).1) db (step.next host db) :=
  .inr ⟨step, h, rfl, rfl⟩

theorem of_atomic {α : Type} (clk : Clock) (op : Op) (respond : α → Response) {t : Tx α}
    {result : Except Failure α} (same : op.run host clk = responding respond t)
    (other : ∀ inputs, op ≠ .appendBatch inputs) (run : atomic t a = (result, b)) :
    Follows host Step.noAppend (Response.creation (result.map respond)) a b := by
  have exec := exec_of_atomic same a
  rw [run] at exec
  refine .inr ⟨⟨clk, .engine op⟩, ⟨op, rfl, other⟩, ?_, by rw [exec]⟩
  rw [Step.next, exec]

theorem mono {allowed more : Step → Prop} {created : List Text}
    (h : Follows host allowed created a b) (weaker : ∀ step, allowed step → more step) :
    Follows host more created a b :=
  h.imp_right fun ⟨step, kind, rest⟩ => ⟨step, weaker step kind, rest⟩

end Follows

theorem turn_created {id : Text} {db : Db} {out : Turn} (h : turn id db = .ok out) :
    out.created = false := by
  unfold turn at h
  cases row : turnRow id db with
  | error e =>
    rw [row] at h
    cases h
  | ok t =>
    rw [row] at h
    cases h
    rfl

/-- Only `Begin` creates a turn. -/
theorem recover_created {clk : Clock} {id : Text} {generation : Int} {db db' : Db} {out : Turn}
    (h : recover clk id generation db = .ok (out, db')) : out.created = false := by
  simp only [recover, bind_ok, read_ok] at h
  obtain ⟨_, _, _, _, _, _, _, _, _, _, _, _, last, _⟩ := h
  exact turn_created last

theorem commit_created {host : Host} {clk : Clock} {id : Text} {generation : Int} {reply : Reply}
    {db db' : Db} {out : Turn} (h : commit host clk id generation reply db = .ok (out, db')) :
    out.created = false := by
  unfold commit at h
  split at h
  · cases h
  split at h
  · cases h
  split at h
  · split at h
    · cases h
    split at h
    · cases h
    · cases h
      rfl
  · simp only [commitPending, bind_ok, read_ok] at h
    obtain ⟨_, _, _, _, _, _, _, _, _, _, _, _, _, _, _, _, _, _, _, _, _, last, _⟩ := h
    exact turn_created last

theorem Turn.creation_nil {t : Turn} (h : t.created = false) : t.creation = [] := by
  unfold Turn.creation
  rw [h]
  rfl

theorem enterRun_follows (host : Host) (clk : Clock) (cancelled : Bool) (r : RunRequest) (db : Db) :
    Follows host Step.noAppend (enterRun host clk cancelled r db).creations db
      (enterRun host clk cancelled r db).db := by
  unfold enterRun
  split
  · exact .same db
  split
  · exact .same db
  split
  · rename_i run
    exact .of_atomic clk (.begin r.request []) .turn rfl nofun run
  · rename_i turn db' run
    have follows : Follows host Step.noAppend turn.creation db db' :=
      .of_atomic clk (.begin r.request []) .turn rfl nofun run
    split
    · exact follows
    split
    · rename_i answered
      rw [Turn.creation_nil (by simpa using answered)] at follows
      exact follows
    · exact follows

theorem commitRun_follows (host : Host) (clk : Clock) (cancelled : Bool) (turn : Turn)
    (reply : Reply) (db : Db) :
    Follows host Step.noAppend (commitRun host clk cancelled turn reply db).creations db
      (commitRun host clk cancelled turn reply db).db := by
  unfold commitRun
  split
  · exact .same db
  split
  · rename_i run
    exact .of_atomic clk (.commit turn.requestId turn.generation reply) .turn rfl nofun run
  · rename_i done db' run
    have follows : Follows host Step.noAppend done.creation db db' :=
      .of_atomic clk (.commit turn.requestId turn.generation reply) .turn rfl nofun run
    rw [Turn.creation_nil (commit_created (atomic_ok.mp run))] at follows
    exact follows

/-- The transactions of a `Run` are the engine's. -/
theorem runMove_follows (host : Host) (clk : Clock) (cancelled : Bool) (answer : Option Reply)
    (r : RunRequest) (db : Db) (stage : RunStage) :
    Follows host Step.noAppend (runMove host clk cancelled answer r db stage).creations db
      (runMove host clk cancelled answer r db stage).db := by
  cases stage with
  | entered => exact enterRun_follows host clk cancelled r db
  | begun turn => cases answer <;> exact .same db
  | replied turn reply => exact commitRun_follows host clk cancelled turn reply db
  | returned outcome => exact .same db

end Cmpath
