import Cmpath.Journal.Creation
import Cmpath.Journal.Lease

/-!
# Confirmed results

`Session.Tool` hands the lease it took before the callback back to `FinishTool`. A result is recorded
and returned when the turn is still owned, the intent still started and the callback was shorter
than the lease; the comment on `validateBasis` promises it without the last of these.
-/

namespace Cmpath
open Lib Lib.Txn

section Run

variable {host : Host}

/-! ## A lease over events -/

/-- An event leaves the database or is one transaction on it. -/
theorem Sys.next_db {s : Sys} (event : Event) (keys : JournalKeys s.db.toJournal) :
    (s.next host event).db = s.db ∨ ∃ step : Step, (s.next host event).db = step.next host s.db := by
  obtain ⟨created, _, follows⟩ := @Sys.next_follows host s event keys (fun _ => True)
    (fun _ _ => trivial) fun _ _ => trivial
  rcases follows with ⟨same, _⟩ | ⟨step, _, same, _⟩
  · exact .inl same
  · exact .inr ⟨step, same⟩

theorem Sys.next_grounded {s : Sys} (event : Event) (h : s.db.Grounded) :
    (s.next host event).db.Grounded := by
  rcases @Sys.next_db host s event h.keys with same | ⟨step, same⟩
  · rw [same]
    exact h
  · rw [same]
    exact step.grounded h

theorem Sys.next_issued {s : Sys} (event : Event) {l : LeaseRow} {name : Text} {args : Json}
    (h : s.db.Grounded ∧ Issued l name args s.db) :
    (s.next host event).db.Grounded ∧ Issued l name args (s.next host event).db := by
  refine ⟨Sys.next_grounded event h.1, ?_⟩
  rcases @Sys.next_db host s event h.1.keys with same | ⟨step, same⟩
  · rw [same]
    exact h.2
  · rw [same]
    exact step.issued h.1.keys h.2

theorem runEvents_issued {s : Sys} (events : List Event) {l : LeaseRow} {name : Text} {args : Json}
    (h : s.db.Grounded ∧ Issued l name args s.db) :
    (runEvents host s events).db.Grounded ∧ Issued l name args (runEvents host s events).db := by
  have every : ∀ (s : Sys) (event : Event), True → (s.db.Grounded ∧ Issued l name args s.db) →
      (s.next host event).db.Grounded ∧ Issued l name args (s.next host event).db :=
    fun _ event _ => Sys.next_issued event
  exact runEvents_inv (P := fun s => s.db.Grounded ∧ Issued l name args s.db) every
    (fun _ _ => trivial) h

theorem runEvents_grounded {s : Sys} (events : List Event) (h : s.db.Grounded) :
    (runEvents host s events).db.Grounded := by
  have every : ∀ (s : Sys) (event : Event), True → s.db.Grounded →
      (s.next host event).db.Grounded := fun _ event _ => Sys.next_grounded event
  exact runEvents_inv (P := fun s => s.db.Grounded) every (fun _ _ => trivial) h

/-! ## The steps of a call -/

/-- The k-th call takes its lease in this event. -/
structure Leases (host : Host) (k : Nat) (clk : Clock) (r : ToolRequest) (token : Text)
    (s : Sys) : Prop where
  intended : s.tools[k]? = some (r, .intended)
  leased : (s.next host (.tool k clk none)).tools[k]? = some (r, .leased token)

/-- The k-th call records and returns the result of its callback in this event. -/
structure Confirms (host : Host) (k : Nat) (clk : Clock) (r : ToolRequest) (result : Json)
    (s : Sys) : Prop where
  returned : (s.next host (.tool k clk none)).tools[k]? =
    some (r, .returned (.ok (encode result.canon)))
  recorded : Recorded r.requestId r.callId (encode result.canon) s.db
    (s.next host (.tool k clk none)).db

theorem Sys.next_tool {s : Sys} {k : Nat} {clk : Clock} {answer : Option Json} {r : ToolRequest}
    {stage : ToolStage} (here : s.tools[k]? = some (r, stage)) :
    s.next host (.tool k clk answer) = s.afterTool k r (toolMove host clk answer r s.db stage) := by
  simp only [Sys.next, here]

theorem afterTool_stage {s : Sys} {k : Nat} {r : ToolRequest} {stage : ToolStage}
    (here : s.tools[k]? = some (r, stage)) (m : ToolMove) :
    (s.afterTool k r m).tools[k]? = some (r, m.stage) := by
  obtain ⟨bound, _⟩ := List.getElem?_eq_some_iff.mp here
  show (s.tools.set k (r, m.stage))[k]? = _
  rw [List.getElem?_set_self bound]

/-- A call that took its lease has it in the journal, for five seconds. -/
theorem Leases.issued {s : Sys} {k : Nat} {clk : Clock} {r : ToolRequest} {token : Text}
    (h : Leases host k clk r token s) (grounded : s.db.Grounded) :
    ∃ l name args, l.token = token ∧ l.requestId = r.requestId ∧ l.generation = r.generation ∧
      l.callId = r.callId ∧ l.expiresAt = clk.millis + 5000 ∧ l.token ≠ [] ∧
      l.argsHash = callHash host name args ∧
      Issued l name args (s.next host (.tool k clk none)).db := by
  have next := @Sys.next_tool host s k clk none r .intended h.intended
  have stage := afterTool_stage h.intended (toolMove host clk none r s.db .intended)
  rw [← next, h.leased] at stage
  have leased : (leaseTool host clk r s.db).stage = .leased token :=
    (congrArg Prod.snd (Option.some.inj stage)).symm
  have after : (s.next host (.tool k clk none)).db = (leaseTool host clk r s.db).db := by rw [next]; rfl
  rw [after]
  unfold leaseTool at leased ⊢
  split at leased
  · cases leased
  · rename_i lease db' run
    cases leased
    obtain ⟨call, known, _, _, rfl, rfl⟩ := (actionEligible_iff grounded (by decide)).mp
      (atomic_ok.mp run)
    have key := tool?_key known
    refine ⟨_, call.name, call.argsJson, rfl, rfl, rfl, rfl, rfl, ?_, rfl, .inl ⟨
      List.mem_append_right _ (List.mem_singleton_self _), call, List.mem_of_find?_eq_some known,
      key.1, key.2, rfl, rfl⟩⟩
    exact newLease_token

/-! ## The steps of the others -/

/-- A step of the k-th call. -/
def Event.moves (k : Nat) (event : Event) : Prop := ∃ clk answer, event = .tool k clk answer

theorem Sys.next_other {s : Sys} {k : Nat} {call : ToolRequest × ToolStage}
    (here : s.tools[k]? = some call) (event : Event) (other : ¬ event.moves k) :
    (s.next host event).tools[k]? = some call := by
  cases event with
  | transaction step => exact here
  | enterTool r =>
    obtain ⟨bound, _⟩ := List.getElem?_eq_some_iff.mp here
    show (s.tools ++ [(r, ToolStage.entered)])[k]? = some call
    rw [List.getElem?_append_left bound]
    exact here
  | tool j clk answer =>
    have apart : j ≠ k := by
      rintro rfl
      exact other ⟨clk, answer, rfl⟩
    cases moved : s.tools[j]? with
    | none =>
      simp only [Sys.next, moved]
      exact here
    | some m =>
      simp only [Sys.next, moved, Sys.afterTool]
      rw [List.getElem?_set_ne apart]
      exact here
  | enterRun r => exact here
  | run j clk cancelled answer =>
    cases moved : s.runs[j]? with
    | none =>
      simp only [Sys.next, moved]
      exact here
    | some m =>
      simp only [Sys.next, moved]
      exact here

/-- A call stays where it is while the others move. -/
theorem runEvents_other {s : Sys} {k : Nat} {call : ToolRequest × ToolStage} {events : List Event}
    (others : ∀ event ∈ events, ¬ event.moves k) (here : s.tools[k]? = some call) :
    (runEvents host s events).tools[k]? = some call := by
  have every : ∀ (s : Sys) (event : Event), ¬ event.moves k → s.tools[k]? = some call →
      (s.next host event).tools[k]? = some call := fun _ event other here => Sys.next_other here event other
  exact runEvents_inv (P := fun s => s.tools[k]? = some call) every others here

end Run

/-! ## A call of the session -/

/-- The turn is pending at the session's generation and the intent is started. -/
def ToolRequest.Held (r : ToolRequest) (db : Db) : Prop :=
  Owned r.requestId r.generation db ∧ Intended r.requestId r.callId db

/-- A `Session.Tool` call from its lease on: it takes the lease at `leaseClock`, its callback
    returns `result`, it asks for the recording at `finishClock`, and others move before, while the
    callback runs and until `FinishTool` has the database. -/
structure ToolCallRun where
  before : List Event
  k : Nat
  leaseClock : Clock
  callback : List Event
  callClock : Clock
  result : Json
  after : List Event
  finishClock : Clock

namespace ToolCallRun

variable {host : Host}

/-- The state in which the lease is asked for. -/
def leasing (host : Host) (x : ToolCallRun) : Sys := runEvents host {} x.before

/-- The state in which the callback returns. -/
def returning (host : Host) (x : ToolCallRun) : Sys :=
  runEvents host ((x.leasing host).next host (.tool x.k x.leaseClock none)) x.callback

/-- The state in which `FinishTool` has the database. -/
def recording (host : Host) (x : ToolCallRun) : Sys :=
  runEvents host ((x.returning host).next host (.tool x.k x.callClock (some x.result))) x.after

/-- The call got its lease, the others did not move it, and the result's numbers are numbers. -/
structure Runs (host : Host) (r : ToolRequest) (token : Text) (x : ToolCallRun) : Prop where
  leases : Leases host x.k x.leaseClock r token (x.leasing host)
  callback : ∀ event ∈ x.callback, ¬ event.moves x.k
  after : ∀ event ∈ x.after, ¬ event.moves x.k
  numbers : x.result.Numbers

theorem Runs.executed {r : ToolRequest} {token : Text} {x : ToolCallRun} (h : x.Runs host r token) :
    (x.recording host).tools[x.k]? = some (r, .executed token x.result) := by
  have here : (x.returning host).tools[x.k]? = some (r, .leased token) :=
    runEvents_other h.callback h.leases.leased
  refine runEvents_other h.after ?_
  rw [Sys.next_tool here]
  exact afterTool_stage here _

/-- The lease is issued when `FinishTool` has the database. -/
theorem Runs.issued {r : ToolRequest} {token : Text} {x : ToolCallRun} (h : x.Runs host r token) :
    (x.recording host).db.Grounded ∧ ∃ l name args, l.token = token ∧ l.requestId = r.requestId ∧
      l.generation = r.generation ∧ l.callId = r.callId ∧
      l.expiresAt = x.leaseClock.millis + 5000 ∧ l.token ≠ [] ∧ l.argsHash = callHash host name args ∧
      Issued l name args (x.recording host).db := by
  have empty : Db.Grounded .empty := @Reachable.grounded host _ ⟨[], rfl⟩
  have start : (x.leasing host).db.Grounded := runEvents_grounded x.before empty
  obtain ⟨l, name, args, token_, id, generation, callId, expires, real, hash, issued⟩ :=
    h.leases.issued start
  have called : (x.returning host).db.Grounded ∧ Issued l name args (x.returning host).db :=
    runEvents_issued x.callback ⟨Sys.next_grounded _ start, issued⟩
  have done : (x.recording host).db.Grounded ∧ Issued l name args (x.recording host).db :=
    runEvents_issued x.after (Sys.next_issued _ called)
  exact ⟨done.1, l, name, args, token_, id, generation, callId, expires, real, hash, done.2⟩

/-- The result of the callback is recorded and returned if the call was held when the callback
    returned. -/
def Kept (host : Host) (r : ToolRequest) (x : ToolCallRun) : Prop :=
  r.Held (x.returning host).db →
    Confirms host x.k x.finishClock r x.result (x.recording host)

end ToolCallRun

end Cmpath
