import Cmpath.Engine.Maintenance
import Cmpath.Memory.Task

/-!
# Operations on one database

The calls the two programs offer, each as one serialised transaction (`BEGIN IMMEDIATE`), and the
runs they make from the database `Open` creates.
-/

namespace Cmpath
open Lib Lib.Txn

/-- A call of the engine's API. -/
inductive Op where
  | createTask (input : CreateTask)
  | appendBatch (inputs : List Append)
  | setFact (taskId : Int) (f : FactUpdate)
  | begin (r : Request) (custom : List CustomCounter)
  | recover (id : Text) (generation : Int)
  | commit (id : Text) (generation : Int) (reply : Reply)
  | abort (id : Text) (generation : Int)
  | actionEligible (id : Text) (generation : Int) (callId : Text) (ttlMs : Int)
  | startTool (id : Text) (generation : Int) (callId name : Text) (args : Json)
  | finishTool (id : Text) (generation : Int) (callId : Text) (result : Json) (tokens : List Text)
  | recordModelRequest (id : Text) (generation : Int) (callId payload : Text) (units : Int)
      (counting : Text)
  | recordModelResponse (id : Text) (generation : Int) (callId response : Text)
  | applyRetention (cutoff : Option Instant) (planHash : Text)
  | retentionPlan (cutoff : Option Instant)
  | task (id : Int)
  | turn (id : Text)
  | tools (id : Text)
  | modelCalls (id : Text)
  | search (query : Text) (ids : Option (List Int)) (limit : Int)
  | preview (r : Request) (custom : List CustomCounter)

/-- What a call returns. -/
inductive Response where
  | done
  | task (t : Task)
  | evidence (items : List Evidence)
  | turn (t : Turn)
  | tool (c : ToolCall)
  | tools (cs : List ToolCall)
  | lease (l : ActionLease)
  | models (cs : List ModelCall)
  | package (p : Package)
  | retention (r : RetentionReport)
  | row (r : TaskRow)
  | id (n : Int)
  | json (j : Json)

/-- Run a transaction for its response. -/
def responding {α : Type} (respond : α → Response) (t : Tx α) : Tx Response := do
  let a ← t
  pure (respond a)

/-- The transaction of a call. -/
def Op.run (host : Host) (clk : Clock) : Op → Tx Response
  | .createTask input => responding .task (Cmpath.createTask host clk input)
  | .appendBatch inputs => responding .evidence (Cmpath.appendBatch clk inputs)
  | .setFact taskId f => responding (fun _ => .done) (Cmpath.setFact (clk.now 0) taskId f)
  | .begin r custom => responding .turn (Cmpath.begin host clk r custom)
  | .recover id generation => responding .turn (Cmpath.recover clk id generation)
  | .commit id generation reply => responding .turn (Cmpath.commit host clk id generation reply)
  | .abort id generation => responding (fun _ => .done) (Cmpath.abort clk id generation)
  | .actionEligible id generation callId ttlMs =>
      responding .lease (Cmpath.actionEligible host clk id generation callId ttlMs)
  | .startTool id generation callId name args =>
      responding .tool (Cmpath.startTool host id generation callId name args)
  | .finishTool id generation callId result tokens =>
      responding .tool (Cmpath.finishTool host clk id generation callId result tokens)
  | .recordModelRequest id generation callId payload units counting =>
      responding (fun _ => .done)
        (Cmpath.recordModelRequest host id generation callId payload units counting)
  | .recordModelResponse id generation callId response =>
      responding (fun _ => .done) (Cmpath.recordModelResponse host clk id generation callId response)
  | .applyRetention cutoff planHash =>
      responding .retention (Cmpath.applyRetention host clk cutoff planHash)
  | .retentionPlan cutoff => responding .retention (read (Cmpath.retentionPlan host cutoff))
  | .task id => responding .task (read (Cmpath.task id))
  | .turn id => responding .turn (read (Cmpath.turn id))
  | .tools id => responding .tools (read (Cmpath.tools id))
  | .modelCalls id => responding .models (read (Cmpath.modelCalls id))
  | .search query ids limit => responding .evidence (read (Cmpath.search host query ids limit))
  | .preview r custom => responding .package (read (Cmpath.preview host r custom))

/-- A call of a `TaskMemory` method that writes. -/
inductive MemoryOp where
  | createTask (title : Text) (parents : List Int) (aliases : List Text) (snapshot : Json)
  | setSnapshot (taskId : Int) (snapshot : Json) (expectedRevision : Int)
  | resume (taskId : Int) (expectedVersion : Option Int)
  | archive (taskId : Int)
  | deleteTask (taskId : Int)
  | append (taskId : Int) (role content : Text) (source : Json)
  | setFact (taskId : Int) (key : Text) (value : Json) (evidenceId : Int) (retracted : Bool)

/-- The transaction of a method. -/
def MemoryOp.run (host : Host) (clk : Clock) : MemoryOp → Tx Response
  | .createTask title parents aliases snapshot =>
      responding .id (TaskMemory.createTask host clk title parents aliases snapshot)
  | .setSnapshot taskId snapshot expectedRevision =>
      responding .row (TaskMemory.setSnapshot clk taskId snapshot expectedRevision)
  | .resume taskId expectedVersion => responding .json (TaskMemory.resume clk taskId expectedVersion)
  | .archive taskId => responding (fun _ => .done) (TaskMemory.archive clk taskId)
  | .deleteTask taskId => responding (fun _ => .done) (TaskMemory.deleteTask clk taskId)
  | .append taskId role content source =>
      responding .id (TaskMemory.append clk taskId role content source)
  | .setFact taskId key value evidenceId retracted =>
      responding (fun _ => .done) (TaskMemory.setFact clk taskId key value evidenceId retracted)

/-- Anything that writes to the file: the engine, the Python library, a direct statement. -/
inductive Action where
  | engine (op : Op)
  | memory (op : MemoryOp)
  | direct (write : Direct)

/-- The transaction of an action. -/
def Action.run (host : Host) (clk : Clock) : Action → Tx Response
  | .engine op => op.run host clk
  | .memory op => op.run host clk
  | .direct write => responding (fun _ => .done) write.exec

/-- One action at one time. -/
structure Step where
  clk : Clock
  action : Action

/-- Run one action as a transaction: its response or its error, and the database afterwards. -/
def Step.exec (host : Host) (step : Step) (db : Db) : Except Failure Response × Db :=
  atomic (step.action.run host step.clk) db

/-- The database after one action. -/
def Step.next (host : Host) (step : Step) (db : Db) : Db := (step.exec host db).2

/-- The database after a sequence of actions. -/
def runSteps (host : Host) (db : Db) (steps : List Step) : Db :=
  steps.foldl (fun db (step : Step) => step.next host db) db

/-- A call of the engine at one time. -/
def engineStep (call : Clock × Op) : Step := ⟨call.1, .engine call.2⟩

/-- The database after a sequence of engine operations. -/
def runOps (host : Host) (db : Db) (calls : List (Clock × Op)) : Db :=
  runSteps host db (calls.map engineStep)

/-- Only the engine writes. -/
def Step.isEngine (step : Step) : Prop := ∃ op, step.action = .engine op

/-- A database some sequence of actions leads to. -/
def Reachable (host : Host) (db : Db) : Prop := ∃ steps, db = runSteps host .empty steps

/-- A database some sequence of engine operations leads to. -/
def EngineReachable (host : Host) (db : Db) : Prop :=
  ∃ steps : List Step, (∀ step ∈ steps, step.isEngine) ∧ db = runSteps host .empty steps

theorem EngineReachable.reachable {host : Host} {db : Db} (h : EngineReachable host db) :
    Reachable host db := by
  obtain ⟨steps, _, rfl⟩ := h
  exact ⟨steps, rfl⟩

/-- What holds at first and after every action holds after every run. -/
theorem runSteps_inv {host : Host} {P : Db → Prop} {allowed : Step → Prop}
    (preserved : ∀ (db : Db) (step : Step), allowed step → P db → P (step.next host db)) :
    ∀ {steps : List Step} {db : Db}, (∀ step ∈ steps, allowed step) → P db →
      P (runSteps host db steps)
  | [], _, _, start => start
  | step :: rest, db, all, start => by
      have later : ∀ s ∈ rest, allowed s := fun s member => all s (List.mem_cons_of_mem _ member)
      show P (runSteps host (step.next host db) rest)
      exact runSteps_inv preserved later (preserved db step (all step List.mem_cons_self) start)

/-- An invariant of every action holds of every reachable database. -/
theorem Reachable.inv {host : Host} {P : Db → Prop} (start : P .empty)
    (preserved : ∀ (db : Db) (step : Step), P db → P (step.next host db)) {db : Db} (h : Reachable host db) :
    P db := by
  obtain ⟨steps, rfl⟩ := h
  have every : ∀ db (step : Step), True → P db → P (step.next host db) :=
    fun db step _ => preserved db step
  exact runSteps_inv every (fun _ _ => trivial) start

theorem engineStep_isEngine (call : Clock × Op) : (engineStep call).isEngine := ⟨call.2, rfl⟩

theorem runOps_reachable (host : Host) (calls : List (Clock × Op)) :
    EngineReachable host (runOps host .empty calls) := by
  refine ⟨calls.map engineStep, fun step member => ?_, rfl⟩
  obtain ⟨call, _, rfl⟩ := List.mem_map.mp member
  exact engineStep_isEngine call

/-- An invariant of every engine operation holds of every database the engine reaches. -/
theorem EngineReachable.inv {host : Host} {P : Db → Prop} (start : P .empty)
    (preserved : ∀ (db : Db) (step : Step), Step.isEngine step → P db → P (step.next host db)) {db : Db}
    (h : EngineReachable host db) : P db := by
  obtain ⟨steps, all, rfl⟩ := h
  exact runSteps_inv preserved all start

theorem responding_ok {α : Type} {respond : α → Response} {t : Tx α} {db db' : Db}
    {out : Response} :
    responding respond t db = .ok (out, db') ↔ ∃ a, t db = .ok (a, db') ∧ out = respond a := by
  simp only [responding, bind_ok, pure_ok]
  constructor
  · rintro ⟨a, s, run, rfl, rfl⟩
    exact ⟨a, run, rfl⟩
  · rintro ⟨a, run, rfl⟩
    exact ⟨a, db', run, rfl, rfl⟩

/-- Either nothing happened or the transaction of the action ran. -/
theorem Step.next_cases {host : Host} {step : Step} {db : Db} {P : Db → Prop} (stay : P db)
    (run : ∀ out db', step.action.run host step.clk db = .ok (out, db') → P db') :
    P (step.next host db) :=
  atomic_cases stay run

/-- A run of a run goes on where it stopped. -/
theorem runSteps_append (host : Host) (db : Db) (first second : List Step) :
    runSteps host db (first ++ second) = runSteps host (runSteps host db first) second :=
  List.foldl_append

/-- `TaskMemory` adds dependencies in `create_task` alone. -/
theorem keeps_memory_edgeless (host : Host) (clk : Clock) (op : MemoryOp)
    (other : ∀ title parents aliases snapshot, op ≠ .createTask title parents aliases snapshot) :
    Keeps (Evolves Write.Edgeless) (op.run host clk) := by
  have refl := TaskMemory.refl_edgeless
  have trans := TaskMemory.trans_edgeless
  cases op with
  | createTask title parents aliases snapshot => exact absurd rfl (other _ _ _ _)
  | setSnapshot taskId snapshot expectedRevision =>
    exact .bind trans (TaskMemory.keeps_setSnapshot clk (fun _ _ _ => trivial) (fun _ _ _ => trivial)
      _ _ _) fun _ => .pure refl _
  | resume taskId expectedVersion =>
    exact .bind trans (TaskMemory.keeps_resume clk (fun _ _ _ => trivial) (fun _ _ _ => trivial)
      (fun _ => trivial) _ _) fun _ => .pure refl _
  | archive taskId =>
    exact .bind trans (TaskMemory.keeps_archive clk (fun _ _ _ => trivial) (fun _ _ _ => trivial) _)
      fun _ => .pure refl _
  | deleteTask taskId =>
    exact .bind trans (TaskMemory.keeps_deleteTask clk _) fun _ => .pure refl _
  | append taskId role content source =>
    exact .bind trans (TaskMemory.keeps_append clk (fun _ => trivial) (fun _ _ _ => trivial) _ _ _ _)
      fun _ => .pure refl _
  | setFact taskId key value evidenceId retracted =>
    exact .bind trans (TaskMemory.keeps_setFact clk (fun _ => trivial) (fun _ _ _ => trivial) _ _ _ _
      _) fun _ => .pure refl _

/-- The methods of `TaskMemory` are row writes. -/
theorem keeps_memory (host : Host) (clk : Clock) (op : MemoryOp) :
    Keeps (Evolves Write.Any) (op.run host clk) := by
  cases op with
  | createTask title parents aliases snapshot =>
    exact .bind Evolves.trans_all
      (.mono (fun _ _ => Evolves.any) (TaskMemory.keeps_createTask clk host _ _ _ _)) fun _ =>
        .pure Evolves.refl_all _
  | _ => exact .mono (fun _ _ => Evolves.any) (keeps_memory_edgeless host clk _ nofun)

/-- So are direct statements. -/
theorem keeps_direct_run (d : Direct) :
    Keeps (Evolves Write.Any) (responding (fun _ => .done) d.exec) :=
  .bind Evolves.trans_all (keeps_direct d) fun _ => .pure Evolves.refl_all _

/-! ## A small store

One host, one clock and one request for the runs that show a theorem's hypotheses can hold: every
digest is the same, no text has a word, a message counts for nothing. -/

def plainDigest : Digest := ⟨List.replicate 64 (.char '0'), by decide, by decide⟩

def plainHost : Host where
  sha256 _ := plainDigest
  jsonValid _ := true
  jsonObject _ := true
  foldNFKC := id
  isWord _ := false
  bm25 _ _ := []
  casefoldNFKC := id
  isAlnum _ := true
  floatRepr := id

def plainClock : Clock := ⟨fun _ => .epoch, 0⟩

def plainRequest : Request :=
  { requestId := Text.lit "r", taskId := 1, query := Text.lit "q", scope := Text.lit "task" }

def plainCounter : CustomCounter := ⟨Text.lit "free", some fun _ _ => .ok 0⟩

/-- An operation at the one time there is. -/
def plainStep (op : Op) : Step := ⟨plainClock, .engine op⟩

/-- A task and a pending turn of it. -/
def plainCalls : List (Clock × Op) :=
  [(plainClock, .createTask { title := Text.lit "t" }),
    (plainClock, .begin plainRequest [plainCounter])]

def plainTurn : List Step := plainCalls.map engineStep

theorem exists_ok {ε α : Type} {x : Except ε α} (h : x.toBool = true) : ∃ a, x = .ok a := by
  cases x with
  | ok a => exact ⟨a, rfl⟩
  | error e => cases h

theorem exists_turn {p : Turn → Bool} {x : Except Failure Response}
    (h : (match x with | .ok (.turn t) => p t | _ => false) = true) :
    ∃ t, x = .ok (.turn t) ∧ p t = true := by
  split at h
  · exact ⟨_, rfl, h⟩
  · cases h

end Cmpath
