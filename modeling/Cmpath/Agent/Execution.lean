import Cmpath.Agent.Dispatch

/-!
# Document tools run once, after their intent

A document tool runs on the intent of a call that no row named before, so at most once for an identifier
of the journal, whichever runs take the turn over; and it runs for a response that is in the journal.
-/

namespace Cmpath
open Lib Lib.Txn

namespace Agent

section Stable

variable {host : Host} {db db' : Db} {id callId : Text}

/-- Nothing takes a response away but the retirement of its turn. -/
theorem Writes.answered (h : Writes host db db') (keys : JournalKeys db.toJournal)
    (answered : Answered id callId db) : Answered id callId db' := by
  rcases h with rfl | ⟨step, rfl⟩
  · exact answered
  rcases step.change host db with change | evolves
  · rcases answered with ⟨m, member, own, name⟩ | ⟨r, member, own⟩
    · rcases change.response_step keys member with later | ⟨t, _, same, removed⟩
      · exact .inl ⟨m, later, own, name⟩
      · obtain ⟨_, tomb⟩ := removed.tombstone
        exact .inr ⟨_, tomb, same.trans own⟩
    · exact .inr ⟨r, change.retired_step keys member, own⟩
  · unfold Answered
    rw [evolves.journal]
    exact answered

end Stable

/-- The work of a stage that is busy with the tool calls of a response. -/
def AgentStage.working : AgentStage → Option Work
  | .acting w _ _ | .intended w _ _ _ | .leased w _ _ _ _ | .executed w _ _ _ _ _ => some w
  | _ => none

/-- The run is about to execute this tool call. -/
def licensed (id journalId : Text) (call : AgentCall × AgentStage) : Bool :=
  match call.2 with
  | .intended w _ use _ | .leased w _ use _ _ =>
      w.session.requestId == id && w.journalId use == journalId
  | _ => false

/-- The execution is of this tool call. -/
def Execution.names (id journalId : Text) (e : Execution) : Bool :=
  e.requestId == id && e.journalId == journalId

/-- The executions of a tool call: those that happened, and those about to happen. -/
def Agents.performed (s : Agents) (id journalId : Text) : Nat :=
  s.executions.countP (Execution.names id journalId) + s.runs.countP (licensed id journalId)

section Onward

variable {w : Work} {stage : AgentStage}

theorem Onward.work (h : Onward w stage) {v : Work} (has : stage.work = some v) :
    v.session = w.session ∧ v.saved = w.saved := by
  cases h with
  | returned => cases has
  | asking | acting | committing =>
    cases has
    exact ⟨rfl, rfl⟩

theorem Onward.working (h : Onward w stage) {v : Work} (has : stage.working = some v) :
    v.session = w.session ∧ v.round = w.round := by
  cases h with
  | returned | asking | committing => cases has
  | acting =>
    cases has
    exact ⟨rfl, rfl⟩

theorem Onward.licensed (h : Onward w stage) (a : AgentCall) (id journalId : Text) :
    Agent.licensed id journalId (a, stage) = false := by
  cases h <;> rfl

end Onward

theorem nextRound_working (a : AgentCall) (w : Work) : (nextRound a w).working = none := by
  unfold nextRound
  split <;> rfl

theorem work_of_working {stage : AgentStage} {w : Work} (working : stage.working = some w) :
    stage.work = some w := by
  cases stage with
  | acting | intended | leased | executed => exact working
  | _ => cases working

/-- A tool call is executed at most once, on its own intent and for a saved response; what a run knows
    to be answered is. -/
structure ExecutionInvariant (s : Agents) : Prop where
  once : ∀ id journalId, s.performed id journalId ≤ 1
  used : ∀ id journalId, 0 < s.performed id journalId → Used id journalId s.db
  logged : ∀ e ∈ s.executions, Answered e.requestId e.callId s.db
  saved : ∀ (k : Nat) a stage w, s.runs[k]? = some (a, stage) → stage.work = some w →
    ∀ e ∈ w.saved, e.responseJson.isSome → Answered w.session.requestId e.callId s.db
  working : ∀ (k : Nat) a stage w, s.runs[k]? = some (a, stage) → stage.working = some w →
    Answered w.session.requestId (modelCallId w.round) s.db

section Invariant

variable {host : Host} {s : Agents} {k : Nat} {a : AgentCall} {stage : AgentStage} {m : AgentMove}

theorem ExecutionInvariant.empty : ExecutionInvariant {} := by
  refine ⟨fun _ _ => Nat.zero_le _, ?_, ?_, ?_, ?_⟩ <;> simp [Agents.performed]

/-- The executions of a tool call after one run moved. -/
theorem performed_after (here : s.runs[k]? = some (a, stage)) (m : AgentMove) (id journalId : Text) :
    (s.after k a m).performed id journalId + (licensed id journalId (a, stage)).toNat =
      s.performed id journalId + (licensed id journalId (a, m.stage)).toNat +
        m.executions.countP (Execution.names id journalId) := by
  have moved := Table.countP_set_add (licensed id journalId) (a, m.stage) here
  simp only [Agents.performed, Agents.after, List.countP_append]
  omega

/-- What a step of one run does about tool calls: it spends the licence it had, or gets one for a call
    that was not used; and it acts on responses that are in the journal. -/
structure Performs (before : Db) (a : AgentCall) (stage : AgentStage) (m : AgentMove) : Prop where
  licence : (∀ id journalId, (licensed id journalId (a, m.stage)).toNat +
      m.executions.countP (Execution.names id journalId) ≤ (licensed id journalId (a, stage)).toNat) ∨
    (m.executions = [] ∧ ∃ i j, ¬ Used i j before ∧ Used i j m.db ∧
      ∀ id journalId, licensed id journalId (a, m.stage) = true → i = id ∧ j = journalId)
  logged : ∀ e ∈ m.executions, Answered e.requestId e.callId m.db
  saved : ∀ w, m.stage.work = some w → ∀ e ∈ w.saved, e.responseJson.isSome →
    Answered w.session.requestId e.callId m.db
  working : ∀ w, m.stage.working = some w → Answered w.session.requestId (modelCallId w.round) m.db

theorem ExecutionInvariant.advance (h : ExecutionInvariant s) (keys : JournalKeys s.db.toJournal)
    (here : s.runs[k]? = some (a, stage)) (writes : Writes host s.db m.db)
    (spec : Performs s.db a stage m) : ExecutionInvariant (s.after k a m) := by
  have stable : ∀ {id journalId}, Used id journalId s.db → Used id journalId m.db :=
    writes.used keys
  have each : ∀ id journalId, (s.after k a m).performed id journalId ≤ 1 ∧
      (0 < (s.after k a m).performed id journalId → Used id journalId m.db) := by
    intro id journalId
    have moved := performed_after here m id journalId
    have before := h.once id journalId
    rcases spec.licence with spent | ⟨quiet, i, j, unused, used, own⟩
    · have fewer := spent id journalId
      exact ⟨by omega, fun some_ => stable (h.used _ _ (by omega))⟩
    · rw [quiet, List.countP_nil] at moved
      by_cases holds : licensed id journalId (a, m.stage) = true
      · obtain ⟨rfl, rfl⟩ := own id journalId holds
        have zero : s.performed i j = 0 :=
          Nat.eq_zero_of_not_pos fun some_ => unused (h.used _ _ some_)
        rw [holds, Bool.toNat_true] at moved
        exact ⟨by omega, fun _ => used⟩
      · rw [Bool.not_eq_true] at holds
        rw [holds, Bool.toNat_false] at moved
        exact ⟨by omega, fun some_ => stable (h.used _ _ (by omega))⟩
  refine ⟨fun id j => (each id j).1, fun id j => (each id j).2, ?_, ?_, ?_⟩
  · intro e member
    rcases List.mem_append.mp member with old | new
    · exact writes.answered keys (h.logged e old)
    · exact spec.logged e new
  · intro j b other w there has e member some_
    rcases after_run there with ⟨_, eq⟩ | ⟨_, old⟩
    · cases eq
      exact spec.saved w has e member some_
    · exact writes.answered keys (h.saved j b other w old has e member some_)
  · intro j b other w there has
    rcases after_run there with ⟨_, eq⟩ | ⟨_, old⟩
    · cases eq
      exact spec.working w has
    · exact writes.answered keys (h.working j b other w old has)

section Performs

variable {next : AgentStage} {w : Work} {db' : Db} {dispatches : List Dispatch}

/-- A step without an execution to a stage without a licence spends nothing. -/
theorem performs_nothing (none_ : ∀ id journalId, licensed id journalId (a, next) = false)
    (id journalId : Text) : (licensed id journalId (a, next)).toNat +
      List.countP (Execution.names id journalId) [] ≤ (licensed id journalId (a, stage)).toNat := by
  rw [none_, List.countP_nil]
  exact Nat.zero_le _

/-- Nothing is in hand after the step. -/
theorem Performs.idle (work : next.work = none)
    (none_ : ∀ id journalId, licensed id journalId (a, next) = false) :
    Performs s.db a stage ⟨next, db', dispatches, []⟩ := by
  refine ⟨.inl (performs_nothing none_), ?_, ?_, ?_⟩
  · intro e member
    cases member
  · intro w has
    rw [work] at has
    cases has
  · intro w has
    rw [work_of_working has] at work
    cases work

/-- The work goes on with what it knew; where it is busy with a response, that one is in the journal. -/
theorem ExecutionInvariant.same (h : ExecutionInvariant s) (keys : JournalKeys s.db.toJournal)
    (here : s.runs[k]? = some (a, stage)) (work : stage.work = some w)
    (writes : Writes host s.db db')
    (onward : ∀ v, next.work = some v → v.session = w.session ∧ v.saved = w.saved)
    (busy : ∀ v, next.working = some v → Answered v.session.requestId (modelCallId v.round) db')
    (none_ : ∀ id journalId, licensed id journalId (a, next) = false) :
    Performs s.db a stage ⟨next, db', dispatches, []⟩ := by
  refine ⟨.inl (performs_nothing none_), ?_, ?_, busy⟩
  · intro e member
    cases member
  · intro v has e member some_
    obtain ⟨session, saved⟩ := onward v has
    rw [saved] at member
    rw [session]
    exact writes.answered keys (h.saved k a stage w here work e member some_)

/-- A run that is done with a response that is in the journal. -/
theorem ExecutionInvariant.onward (h : ExecutionInvariant s) (keys : JournalKeys s.db.toJournal)
    (here : s.runs[k]? = some (a, stage)) (work : stage.work = some w)
    (writes : Writes host s.db db')
    (answered : Answered w.session.requestId (modelCallId w.round) db') (on : Onward w next) :
    Performs s.db a stage ⟨next, db', dispatches, []⟩ := by
  refine h.same keys here work writes (fun v has => on.work has) ?_ (on.licensed a)
  intro v has
  obtain ⟨session, round⟩ := on.working has
  rw [session, round]
  exact answered

/-- A run that is still busy with the response it was busy with. -/
theorem ExecutionInvariant.busy (h : ExecutionInvariant s) (keys : JournalKeys s.db.toJournal)
    (here : s.runs[k]? = some (a, stage)) (working : stage.working = some w)
    (writes : Writes host s.db db') : Answered w.session.requestId (modelCallId w.round) db' :=
  writes.answered keys (h.working k a stage w here working)

end Performs

theorem ExecutionInvariant.move (h : ExecutionInvariant s) (d : DispatchInvariant s)
    (here : s.runs[k]? = some (a, stage)) (spec : AgentStep host a s.db stage m) :
    ExecutionInvariant (s.after k a m) := by
  have writes := spec.writes
  refine h.advance d.keys here writes ?_
  cases spec with
  | ended | known | created | recovered => exact .idle rfl fun _ _ => rfl
  | @read turn saved messages live all answered =>
    have on : Onward ⟨turn, saved, messages, 0⟩ (nextRound a ⟨turn, saved, messages, 0⟩) :=
      nextRound_onward messages
    have own : turn.requestId = a.config.requestId := d.own k a _ turn here rfl
    refine ⟨.inl (performs_nothing (on.licensed a)), ?_, ?_, ?_⟩
    · intro e member
      cases member
    · intro w has e member some_
      obtain ⟨session, calls⟩ := on.work has
      rw [calls] at member
      rw [session, show (Work.mk turn saved messages 0).session = turn from rfl, own]
      exact answered e member some_
    · intro w has
      rw [nextRound_working] at has
      cases has
  | @asked w raw db' _ current requested fresh =>
    exact h.same d.keys here rfl writes (fun v has => by cases has; exact ⟨rfl, rfl⟩)
      (fun v has => by cases has) fun _ _ => rfl
  | @replayed w next db' _ saved on =>
    obtain ⟨e, member, name, some_⟩ := saved
    have known := h.saved k a _ w here rfl e member some_
    rw [name] at known
    exact h.onward d.keys here rfl writes (writes.answered d.keys known) on
  | @sent w raw next answer =>
    rcases answer with ⟨e, rfl⟩ | ⟨r, rfl⟩
    · exact .idle rfl fun _ _ => rfl
    · exact h.same d.keys here rfl writes (fun v has => by cases has; exact ⟨rfl, rfl⟩)
        (fun v has => by cases has) fun _ _ => rfl
  | recorded _ answered on => exact h.onward d.keys here rfl writes answered on
  | finished on => exact h.onward d.keys here rfl writes (h.busy d.keys here rfl writes) on
  | repeated _ on => exact h.onward d.keys here rfl writes (h.busy d.keys here rfl writes) on
  | @intended w seen seen' call rest use db' _ fresh =>
    obtain ⟨unused, used⟩ := fresh d.keys
    refine ⟨.inr ⟨rfl, _, _, unused, used, ?_⟩, ?_, ?_, ?_⟩
    · intro id journalId holds
      simpa [licensed] using holds
    · intro e member
      cases member
    · intro v has e member some_
      cases has
      exact writes.answered d.keys (h.saved k a _ w here rfl e member some_)
    · intro v has
      cases has
      exact h.busy d.keys here rfl writes
  | @leased w seen use rest token db' _ =>
    refine ⟨.inl fun id journalId => ?_, ?_, ?_, ?_⟩
    · rw [List.countP_nil]
      exact le_refl _
    · intro e member
      cases member
    · intro v has e member some_
      cases has
      exact writes.answered d.keys (h.saved k a _ w here rfl e member some_)
    · intro v has
      cases has
      exact h.busy d.keys here rfl writes
  | @executed w seen use rest token next answer =>
    have known : Answered w.session.requestId (modelCallId w.round) s.db :=
      h.busy d.keys here rfl writes
    have logged : ∀ e ∈ [(⟨w.session.requestId, modelCallId w.round, w.journalId use⟩ : Execution)],
        Answered e.requestId e.callId s.db := by
      intro e member
      rw [List.mem_singleton.mp member]
      exact known
    have spent : ∀ id journalId, List.countP (Execution.names id journalId)
        [(⟨w.session.requestId, modelCallId w.round, w.journalId use⟩ : Execution)] =
          (licensed id journalId (a, .leased w seen use rest token)).toNat := by
      intro id journalId
      have one (hit : Bool) : (if hit = true then 1 else 0) = hit.toNat := by cases hit <;> rfl
      rw [List.countP_singleton]
      exact one _
    rcases answer with ⟨e, rfl⟩ | ⟨r, rfl⟩
    · refine ⟨.inl fun id journalId => ?_, logged, ?_, ?_⟩
      · rw [spent, show licensed id journalId (a, .returned (.error e)) = false from rfl,
          Bool.toNat_false, Nat.zero_add]
      · intro v has
        cases has
      · intro v has
        cases has
    · refine ⟨.inl fun id journalId => ?_, logged, ?_, ?_⟩
      · rw [spent, show licensed id journalId (a, .executed w seen use rest token r) = false from rfl,
          Bool.toNat_false, Nat.zero_add]
      · intro v has e member some_
        cases has
        exact h.saved k a _ w here rfl e member some_
      · intro v has
        cases has
        exact known
  | completed _ on => exact h.onward d.keys here rfl writes (h.busy d.keys here rfl writes) on

theorem ExecutionInvariant.next (event : AgentEvent) (h : ExecutionInvariant s)
    (d : DispatchInvariant s) : ExecutionInvariant (s.next host event) := by
  cases event with
  | transaction step =>
    have writes : Writes host s.db (step.next host s.db) := .inr ⟨step, rfl⟩
    exact ⟨h.once, fun id j some_ => writes.used d.keys (h.used id j some_),
      fun e member => writes.answered d.keys (h.logged e member),
      fun k a stage w here has e member some_ =>
        writes.answered d.keys (h.saved k a stage w here has e member some_),
      fun k a stage w here has => writes.answered d.keys (h.working k a stage w here has)⟩
  | enter a =>
    have same : ∀ id j, Agents.performed { s with runs := s.runs ++ [(a, .entered)] } id j =
        s.performed id j := by
      intro id j
      simp [Agents.performed, licensed]
    refine ⟨fun id j => by rw [Agents.next, same]; exact h.once id j,
      fun id j some_ => h.used id j (by rw [Agents.next, same] at some_; exact some_), h.logged, ?_, ?_⟩
    · intro k b stage w here has
      rcases entered_run here with old | new
      · exact h.saved k b stage w old has
      · cases new
        cases has
    · intro k b stage w here has
      rcases entered_run here with old | new
      · exact h.working k b stage w old has
      · cases new
        cases has
  | step k world =>
    cases here : s.runs[k]? with
    | none =>
      simp only [Agents.next, here]
      exact h
    | some call =>
      obtain ⟨a, stage⟩ := call
      simp only [Agents.next, here]
      exact h.move d here (agentMove_spec world stage)

end Invariant

/-- **Document tools run once, and only for what is in the journal.** Whatever transactions of other
    writers, runs, steps and crashes there are, and whether runs may retry or not, a tool call is executed
    at most once, and where it was executed its intent and the model response that asked for it are in
    the journal until the turn is retired. -/
theorem execution_at_most_once (host : Host) (events : List AgentEvent) :
    (∀ id journalId,
      (runAgents host {} events).executions.countP (Execution.names id journalId) ≤ 1) ∧
      ∀ e ∈ (runAgents host {} events).executions,
        Used e.requestId e.journalId (runAgents host {} events).db ∧
          Answered e.requestId e.callId (runAgents host {} events).db := by
  have every : ∀ s event, True → DispatchInvariant s ∧ ExecutionInvariant s →
      DispatchInvariant (s.next host event) ∧ ExecutionInvariant (s.next host event) :=
    fun _ event _ both => ⟨both.1.next event, both.2.next event both.1⟩
  have inv : DispatchInvariant (runAgents host {} events) ∧
      ExecutionInvariant (runAgents host {} events) :=
    runAgents_inv (P := fun s => DispatchInvariant s ∧ ExecutionInvariant s) every
      (fun _ _ => trivial) ⟨.empty, .empty⟩
  refine ⟨fun id j => le_trans (Nat.le_add_right _ _) (inv.2.once id j), fun e member => ⟨?_, ?_⟩⟩
  · refine inv.2.used _ _ (Nat.add_pos_left (List.countP_pos_iff.mpr ⟨e, member, ?_⟩) _)
    simp [Execution.names]
  · exact inv.2.logged e member

end Agent

end Cmpath
