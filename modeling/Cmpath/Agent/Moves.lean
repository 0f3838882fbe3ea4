import Cmpath.Agent.Research
import Cmpath.Journal.Callback
import Cmpath.Journal.Fencing
import Cmpath.Journal.Lease

/-!
# What a step of the agent can do

`AgentStep` lists the steps of a run with what each of them found and left. A request through the pipe
is one transaction of the engine or none, whatever the pipe does (`Writes`).
-/

namespace Cmpath
open Lib Lib.Txn

namespace Agent

/-- At most one transaction. -/
def Writes (host : Host) (a b : Db) : Prop := b = a ∨ ∃ step : Step, b = step.next host a

section Writes

variable {host : Host} {db db' : Db}

theorem Writes.keys (h : Writes host db db') (keys : JournalKeys db.toJournal) :
    JournalKeys db'.toJournal := by
  rcases h with rfl | ⟨step, rfl⟩
  · exact keys
  · exact step.keys keys

theorem Writes.past {id : Text} {generation : Int} (h : Writes host db db')
    (keys : JournalKeys db.toJournal) (past : Past id generation db) : Past id generation db' := by
  rcases h with rfl | ⟨step, rfl⟩
  · exact past
  · exact step.past keys past

theorem Writes.used {id callId : Text} (h : Writes host db db') (keys : JournalKeys db.toJournal)
    (used : Used id callId db) : Used id callId db' := by
  rcases h with rfl | ⟨step, rfl⟩
  · exact used
  · exact step.used keys used

variable (host) in
/-- A request through the pipe is a transaction of its operation, or it did nothing and failed. -/
theorem backendCall_spec {α : Type} {operation : String} {arguments : Json} {decodes : Bool}
    {t : Tx α} (clk : Clock) (op : Op) (respond : α → Response)
    (same : op.run host clk = responding respond t) {result : Except HostError α}
    (run : backendCall operation arguments decodes t db = (result, db')) :
    Writes host db db' ∧ ∀ out, result = .ok out → t db = .ok (out, db') := by
  unfold backendCall at run
  split at run
  · cases run
    refine ⟨.inl rfl, ?_⟩
    intro out failed
    cases failed
  split at run
  · cases run
    refine ⟨.inl rfl, ?_⟩
    intro out failed
    cases failed
  have exec := exec_of_atomic same db
  split at run
  · rename_i out after done
    cases run
    refine ⟨.inr ⟨⟨clk, .engine op⟩, by rw [Step.next, exec, done]⟩, ?_⟩
    intro answer ok
    cases ok
    exact atomic_ok.mp done
  · rename_i failure after failed
    cases run
    refine ⟨.inr ⟨⟨clk, .engine op⟩, by rw [Step.next, exec, failed]⟩, ?_⟩
    intro out ok
    cases ok

end Writes

/-! ## Where a response leads -/

/-- Where a run goes on once it is done with a response: the same session with the same saved calls, in
    this round or the next. -/
inductive Onward (w : Work) : AgentStage → Prop where
  | returned (outcome : Except AgentError (Option Reply)) : Onward w (.returned outcome)
  | asking (messages : List Json) :
      Onward w (.asking { w with messages := messages, round := w.round + 1 })
  | acting (messages : List Json) (seen : List Text) (calls : List Json) :
      Onward w (.acting { w with messages := messages } seen calls)
  | committing (messages : List Json) (content : Text) :
      Onward w (.committing { w with messages := messages } content)

section Onward

variable {a : AgentCall} {w : Work}

theorem nextRound_onward (messages : List Json) :
    Onward w (nextRound a { w with messages := messages }) := by
  unfold nextRound
  split
  · exact .asking messages
  · exact .returned _

theorem nextTool_onward (messages : List Json) (seen : List Text) (calls : List Json) :
    Onward w (nextTool a { w with messages := messages } seen calls) := by
  cases calls with
  | nil => exact nextRound_onward messages
  | cons call rest => exact .acting messages seen (call :: rest)

theorem toolDone_onward (seen : List Text) (use : ToolUse) (rest : List Json) (result : Json) :
    Onward w (toolDone a w seen use rest result) :=
  nextTool_onward (w.messages ++ [toolMessage use.id result]) seen rest

theorem respond_onward (response : Json) : Onward w (respond a w response) := by
  unfold respond
  split
  · exact .returned _
  rename_i message _
  dsimp only
  split
  · exact nextTool_onward _ _ _
  split
  · split
    · exact .returned _
    · exact .committing _ _
  · exact .returned _

end Onward

/-! ## The steps -/

/-- The turn is pending at the generation of a session. -/
def Current (t : Turn) (db : Db) : Prop := Owned t.requestId t.generation db

/-- The request of a model call is recorded, or its turn is retired. -/
def Requested (id callId : Text) (db : Db) : Prop :=
  (∃ m ∈ db.modelCalls, m.requestId = id ∧ m.callId = callId) ∨ ∃ r ∈ db.retiredTurns, r.requestId = id

/-- The response of a model call is recorded, or its turn is retired. -/
def Answered (id callId : Text) (db : Db) : Prop :=
  (∃ r ∈ db.modelResponses, r.requestId = id ∧ r.callId = callId) ∨
    ∃ r ∈ db.retiredTurns, r.requestId = id

/-- A step of a run: what it found, and what it leaves of the database and of the stage. -/
inductive AgentStep (host : Host) (a : AgentCall) (db : Db) : AgentStage → AgentMove → Prop where
  /-- The run is over: it replied, an answer was an error, or the pipe broke. -/
  | ended {stage : AgentStage} {outcome : Except AgentError (Option Reply)} {db' : Db}
      (writes : Writes host db db') : AgentStep host a db stage ⟨.returned outcome, db', [], []⟩
  /-- `begin` finds a turn that is pending. -/
  | known (turn : Turn) : AgentStep host a db .entered ⟨.begun turn, db, [], []⟩
  /-- `begin` creates the turn: no row and no tombstone had its identifier. -/
  | created {turn : Turn} {db' : Db} (writes : Writes host db db')
      (own : turn.requestId = a.config.requestId) (first : turn.generation = 1)
      (unknown : ∀ generation, ¬ Past turn.requestId generation db) (past : Past turn.requestId 0 db') :
      AgentStep host a db .entered ⟨.opened turn, db', [], []⟩
  /-- `recover` moves the turn to its next generation. -/
  | recovered {before turn : Turn} {db' : Db} (writes : Writes host db db')
      (own : turn.requestId = a.config.requestId) (next : turn.generation = before.generation + 1)
      (current : Owned turn.requestId before.generation db)
      (past : Past turn.requestId before.generation db') :
      AgentStep host a db (.begun before) ⟨.opened turn, db', [], []⟩
  /-- The model calls of the turn, which is not retired. -/
  | read {turn : Turn} {saved : List ModelCall} (messages : List Json)
      (live : ∃ t, db.turn? a.config.requestId = some t)
      (all : ∀ m ∈ db.modelCalls, m.requestId = a.config.requestId → ∃ s ∈ saved, s.callId = m.callId)
      (answered : ∀ s ∈ saved, s.responseJson.isSome → Answered a.config.requestId s.callId db) :
      AgentStep host a db (.opened turn) ⟨nextRound a ⟨turn, saved, messages, 0⟩, db, [], []⟩
  /-- The checkpoint is written and no response to it is known; a cautious run has no checkpoint of it
      from before. -/
  | asked {w : Work} (raw : Text) {db' : Db} (writes : Writes host db db')
      (current : Current w.session db) (requested : Requested w.session.requestId (modelCallId w.round) db')
      (fresh : a.retry = false → ∀ s ∈ w.saved, s.callId ≠ modelCallId w.round) :
      AgentStep host a db (.asking w) ⟨.dispatching w raw, db', [], []⟩
  /-- The response that was saved is used again. -/
  | replayed {w : Work} {stage : AgentStage} {db' : Db} (writes : Writes host db db')
      (saved : ∃ s ∈ w.saved, s.callId = modelCallId w.round ∧ s.responseJson.isSome)
      (onward : Onward w stage) : AgentStep host a db (.asking w) ⟨stage, db', [], []⟩
  /-- The dispatch. -/
  | sent {w : Work} {raw : Text} {stage : AgentStage}
      (answer : (∃ e, stage = .returned (.error e)) ∨ ∃ r, stage = .answered w r) :
      AgentStep host a db (.dispatching w raw)
        ⟨stage, db, [⟨w.session.requestId, modelCallId w.round, a.retry⟩], []⟩
  /-- The response is saved. -/
  | recorded {w : Work} {answer : ProviderAnswer} {stage : AgentStage} {db' : Db}
      (writes : Writes host db db')
      (answered : Answered w.session.requestId (modelCallId w.round) db') (onward : Onward w stage) :
      AgentStep host a db (.answered w answer) ⟨stage, db', [], []⟩
  /-- No tool call is left in the round. -/
  | finished {w : Work} {seen : List Text} {stage : AgentStage} (onward : Onward w stage) :
      AgentStep host a db (.acting w seen []) ⟨stage, db, [], []⟩
  /-- The call was completed before. -/
  | repeated {w : Work} {seen : List Text} {call : Json} {rest : List Json} {stage : AgentStage}
      {db' : Db} (writes : Writes host db db') (onward : Onward w stage) :
      AgentStep host a db (.acting w seen (call :: rest)) ⟨stage, db', [], []⟩
  /-- The intent of a call that no row named. -/
  | intended {w : Work} {seen seen' : List Text} {call : Json} {rest : List Json} {use : ToolUse}
      {db' : Db} (writes : Writes host db db')
      (fresh : JournalKeys db.toJournal → ¬ Used w.session.requestId (w.journalId use) db ∧
        Used w.session.requestId (w.journalId use) db') :
      AgentStep host a db (.acting w seen (call :: rest)) ⟨.intended w seen' use rest, db', [], []⟩
  /-- The lease. -/
  | leased {w : Work} {seen : List Text} {use : ToolUse} {rest : List Json} (token : Text) {db' : Db}
      (writes : Writes host db db') :
      AgentStep host a db (.intended w seen use rest) ⟨.leased w seen use rest token, db', [], []⟩
  /-- The document tool runs. -/
  | executed {w : Work} {seen : List Text} {use : ToolUse} {rest : List Json} {token : Text}
      {stage : AgentStage}
      (answer : (∃ e, stage = .returned (.error e)) ∨ ∃ r, stage = .executed w seen use rest token r) :
      AgentStep host a db (.leased w seen use rest token)
        ⟨stage, db, [], [⟨w.session.requestId, modelCallId w.round, w.journalId use⟩]⟩
  /-- Its result is recorded. -/
  | completed {w : Work} {seen : List Text} {use : ToolUse} {rest : List Json} {token : Text}
      {result : Json} {stage : AgentStage} {db' : Db} (writes : Writes host db db')
      (onward : Onward w stage) :
      AgentStep host a db (.executed w seen use rest token result) ⟨stage, db', [], []⟩

section Steps

variable {host : Host} {clk : Clock} {a : AgentCall} {db : Db}

theorem AgentStep.writes {stage : AgentStage} {m : AgentMove} (spec : AgentStep host a db stage m) :
    Writes host db m.db := by
  cases spec with
  | known | read | sent | finished | executed => exact .inl rfl
  | _ => assumption

/-- A pipe that breaks ends the run, whether or not the request had run. -/
theorem World.piped_spec {world : World} {stage : AgentStage} {m : AgentMove}
    (spec : AgentStep host a db stage m) : AgentStep host a db stage (world.piped m db) := by
  unfold World.piped
  cases world.broken with
  | none => exact spec
  | some ran =>
    cases ran with
    | true => exact .ended spec.writes
    | false => exact .ended (.inl rfl)

theorem modelCalls_ok {id : Text} {saved : List ModelCall} (h : modelCalls id db = .ok saved) :
    (∃ t, db.turn? id = some t) ∧
      (∀ m ∈ db.modelCalls, m.requestId = id → ∃ s ∈ saved, s.callId = m.callId) ∧
      ∀ s ∈ saved, s.responseJson.isSome → Answered id s.callId db := by
  unfold modelCalls at h
  cases live : turn id db with
  | error e =>
    rw [live] at h
    cases h
  | ok out =>
    rw [live] at h
    cases h
    obtain ⟨t, found, _⟩ := turn_ok.mp live
    refine ⟨⟨t, found⟩, ?_, ?_⟩
    · intro m member own
      have kept : m ∈ db.modelCalls.filter (·.requestId == id) :=
        List.mem_filter.mpr ⟨member, by rw [own]; exact beq_self_eq_true id⟩
      exact ⟨_, List.mem_map_of_mem kept, rfl⟩
    · intro s member answered
      obtain ⟨m, kept, rfl⟩ := List.mem_map.mp member
      obtain ⟨_, own⟩ := List.mem_filter.mp kept
      rw [Option.isSome_map] at answered
      obtain ⟨r, found⟩ := Option.isSome_iff_exists.mp answered
      have key := List.find?_some found
      simp only [Bool.and_eq_true, beq_iff_eq] at key own
      exact .inl ⟨r, List.mem_of_find?_eq_some found, key.1.trans own, key.2⟩

/-- A turn that `Begin` creates was unknown and is at its first generation. -/
theorem begin_created {r : Request} {out : Turn} {db' : Db}
    (run : begin host clk r [] db = .ok (out, db')) (created : out.created = true) :
    out.requestId = r.requestId ∧ out.generation = 1 ∧
      (∀ generation, ¬ Past out.requestId generation db) ∧ Past out.requestId 0 db' := by
  obtain ⟨n, c, normal, ⟨old, _, _, _, rfl, _⟩ | ⟨row, payload, basis, begun, rfl⟩⟩ := begin_ok run
  · cases created
  have own : n.requestId = r.requestId := by rw [(normalizeRequest_ok normal).kept]; rfl
  refine ⟨own, rfl, ?_, ?_⟩
  · rintro generation (⟨t, member, same, _⟩ | ⟨t, member, same⟩)
    · have := List.find?_eq_none.mp begun.unknown t member
      rw [beq_iff_eq] at this
      exact this same
    · exact retired?_none begun.unretired t member same
  · refine .inl ⟨newTurn host clk n row.reopenedRevision payload, ?_, rfl, ?_⟩
    · rw [begun.after]
      exact List.mem_append_right _ (List.mem_singleton_self _)
    · show (0 : Int) < 1
      omega

/-- A turn that `Recover` hands out is the one that was pending, at its next generation. -/
theorem recover_turn {id : Text} {generation : Int} {out : Turn} {db' : Db}
    (run : recover clk id generation db = .ok (out, db')) :
    out.requestId = id ∧ out.generation = generation + 1 ∧ Owned id generation db ∧
      Past id generation db' := by
  obtain ⟨t, _, live, pending, current, _, _, after⟩ := recover_ok run
  simp only [recover, bind_ok, read_ok] at run
  obtain ⟨_, _, _, _, _, _, _, _, _, _, _, _, last, rfl⟩ := run
  obtain ⟨u, found, rfl⟩ := turn_ok.mp last
  have kept : ∀ t : TurnRow, (TurnRow.recover (clk.now 0) t).requestId = t.requestId := fun _ => rfl
  have moved : db'.turn? id = some (t.recover (clk.now 0)) := by
    have updated := Table.find?_update (k := id) kept db.turns
    rw [show db.turns.find? (fun t => t.requestId == id) = some t from live] at updated
    rw [after]
    exact updated
  rw [moved] at found
  cases found
  have named : (t.recover (clk.now 0)).requestId = id := turn?_id moved
  have next : (t.recover (clk.now 0)).generation = generation + 1 :=
    congrArg (· + 1) current
  refine ⟨named, next, ⟨t, live, pending, current⟩, .inl ⟨_, turn?_mem moved, named, ?_⟩⟩
  rw [next]
  omega

theorem enter_spec : AgentStep host a db .entered (enter host clk a db) := by
  unfold enter
  split
  · rename_i run
    exact .ended (backendCall_spec host clk (.begin (a.request host) []) .turn rfl run).1
  rename_i turn db' run
  obtain ⟨writes, done⟩ := backendCall_spec host clk (.begin (a.request host) []) .turn rfl run
  have begun := done turn rfl
  split
  · exact .ended writes
  by_cases created : turn.created = true
  · rw [if_pos created]
    obtain ⟨own, first, unknown, past⟩ := begin_created begun created
    exact .created writes own first unknown past
  rw [if_neg created]
  split
  · -- an identifier that is known is answered from the journal
    obtain ⟨_, _, _, ⟨_, _, _, _, _, rfl⟩ | ⟨_, _, _, _, rfl⟩⟩ := begin_ok begun
    · exact .known turn
    · exact absurd rfl created
  · exact .ended writes

theorem takeTurn_spec {turn : Turn} : AgentStep host a db (.begun turn) (takeTurn clk a turn db) := by
  unfold takeTurn
  split
  · rename_i run
    exact .ended (backendCall_spec host clk
      (.recover a.config.requestId turn.generation) .turn rfl run).1
  · rename_i run
    obtain ⟨writes, done⟩ := backendCall_spec host clk
      (.recover a.config.requestId turn.generation) .turn rfl run
    obtain ⟨own, next, current, past⟩ := recover_turn (done _ rfl)
    rw [← own] at current past
    exact .recovered writes own next current past

theorem readSaved_spec {turn : Turn} : AgentStep host a db (.opened turn) (readSaved a turn db) := by
  unfold readSaved
  split
  · rename_i run
    exact .ended (backendCall_spec host plainClock (.modelCalls a.config.requestId) .models
      rfl run).1
  · rename_i saved db' run
    obtain ⟨_, done⟩ := backendCall_spec host plainClock (.modelCalls a.config.requestId)
      .models rfl run
    obtain ⟨found, rfl⟩ := read_ok.mp (done saved rfl)
    obtain ⟨live, all, answered⟩ := modelCalls_ok found
    exact .read _ live all answered

/-- Where a run has no saved call of the round, none of its saved calls is that one. -/
theorem Work.previous_none {w : Work} (h : w.previous = none) :
    ∀ s ∈ w.saved, s.callId ≠ modelCallId w.round := by
  intro s member same
  have empty := List.getLast?_eq_none_iff.mp h
  have kept : s ∈ w.saved.filter fun m => m.callId == modelCallId w.round :=
    List.mem_filter.mpr ⟨member, beq_iff_eq.mpr same⟩
  rw [empty] at kept
  cases kept

theorem Work.previous_some {w : Work} {s : ModelCall} (h : w.previous = some s) :
    s ∈ w.saved ∧ s.callId = modelCallId w.round := by
  obtain ⟨member, same⟩ := List.mem_filter.mp (List.mem_of_getLast? h)
  exact ⟨member, beq_iff_eq.mp same⟩

/-- A request that is recorded is of a turn the session has, and has its row. -/
theorem recordModelRequest_requested {id : Text} {generation : Int} {callId payload : Text}
    {units : Int} {counting : Text} {u : Unit} {db' : Db}
    (run : recordModelRequest host id generation callId payload units counting db = .ok (u, db')) :
    Owned id generation db ∧ Requested id callId db' := by
  obtain ⟨_, _, _, t, live, pending, current, _, ⟨old, found, rfl⟩ | ⟨_, _, rfl⟩⟩ :=
    recordModelRequest_ok run
  · have key := List.find?_some found
    simp only [Bool.and_eq_true, beq_iff_eq] at key
    exact ⟨⟨t, live, pending, current⟩, .inl ⟨old, List.mem_of_find?_eq_some found, key⟩⟩
  · exact ⟨⟨t, live, pending, current⟩,
      .inl ⟨_, List.mem_append_right _ (List.mem_singleton_self _), rfl, rfl⟩⟩

theorem recordModelResponse_answered {id : Text} {generation : Int} {callId response : Text}
    {u : Unit} {db' : Db}
    (run : recordModelResponse host clk id generation callId response db = .ok (u, db')) :
    Answered id callId db' := by
  obtain ⟨_, _, t, _, _, _, _, ⟨old, found, rfl⟩ | ⟨_, rfl⟩⟩ := recordModelResponse_ok run
  · have key := List.find?_some found
    simp only [Bool.and_eq_true, beq_iff_eq] at key
    exact .inl ⟨old, List.mem_of_find?_eq_some found, key⟩
  · exact .inl ⟨_, List.mem_append_right _ (List.mem_singleton_self _), rfl, rfl⟩

theorem checkpointed_spec {w : Work} {raw : Text} {db' : Db} (writes : Writes host db db')
    (known : unknownOutcome a w = false) (current : Current w.session db)
    (requested : Requested w.session.requestId (modelCallId w.round) db') :
    AgentStep host a db (.asking w) (checkpointed host a w raw db') := by
  unfold checkpointed
  split
  · rename_i none_
    exact .asked raw writes current requested fun _ => Work.previous_none none_
  rename_i m previous
  obtain ⟨member, same⟩ := Work.previous_some previous
  split
  · exact .ended writes
  split
  · -- without a response only a run that may retry comes here
    rename_i unanswered
    refine .asked raw writes current requested fun cautious => ?_
    rw [unknownOutcome, previous, cautious] at known
    simp [unanswered] at known
  · rename_i response answered
    split
    · exact .ended writes
    · exact .replayed writes ⟨m, member, same, by rw [answered]; rfl⟩ (respond_onward _)

theorem ask_spec {w : Work} : AgentStep host a db (.asking w) (ask host a w db) := by
  unfold ask
  split
  · exact .ended (.inl rfl)
  rename_i known
  split
  · exact .ended (.inl rfl)
  dsimp only
  split
  · exact .ended (.inl rfl)
  rename_i units counting _
  split
  · rename_i run
    exact .ended (backendCall_spec host plainClock (.recordModelRequest w.session.requestId
      w.session.generation (modelCallId w.round) (payload a.config w).dumps units counting)
      (fun _ => .done) rfl run).1
  · rename_i run
    obtain ⟨writes, done⟩ := backendCall_spec host plainClock (.recordModelRequest w.session.requestId
      w.session.generation (modelCallId w.round) (payload a.config w).dumps units counting)
      (fun _ => .done) rfl run
    obtain ⟨current, requested⟩ := recordModelRequest_requested (done () rfl)
    exact checkpointed_spec writes (Bool.eq_false_iff.mpr known) current requested

theorem dispatch_spec {w : Work} {raw : Text} {answer : Option ProviderAnswer} :
    AgentStep host a db (.dispatching w raw) (dispatch host a w answer db) := by
  unfold dispatch
  dsimp only
  split
  · exact .sent (.inl ⟨_, rfl⟩)
  · split
    · exact .sent (.inr ⟨_, rfl⟩)
    · exact .sent (.inl ⟨_, rfl⟩)
  · exact .sent (.inr ⟨_, rfl⟩)

theorem recordResponse_spec {w : Work} {answer : ProviderAnswer} :
    AgentStep host a db (.answered w answer) (recordResponse host clk a w answer db) := by
  unfold recordResponse
  split
  · exact .ended (.inl rfl)
  rename_i j raw _
  split
  · rename_i run
    exact .ended (backendCall_spec host clk (.recordModelResponse w.session.requestId
      w.session.generation (modelCallId w.round) raw) (fun _ => .done) rfl run).1
  · rename_i run
    obtain ⟨writes, done⟩ := backendCall_spec host clk (.recordModelResponse w.session.requestId
      w.session.generation (modelCallId w.round) raw) (fun _ => .done) rfl run
    exact .recorded writes (recordModelResponse_answered (done () rfl)) (respond_onward _)

theorem startUse_spec {w : Work} {seen : List Text} {call : Json} {rest : List Json} :
    AgentStep host a db (.acting w seen (call :: rest)) (startUse host a w seen call rest db) := by
  unfold startUse
  split
  · exact .ended (.inl rfl)
  rename_i use _
  dsimp only
  split
  · rename_i run
    exact .ended (backendCall_spec host plainClock (.startTool w.session.requestId w.session.generation
      (w.journalId use) use.name use.args) .tool rfl run).1
  rename_i out db' run
  obtain ⟨writes, done⟩ := backendCall_spec host plainClock (.startTool w.session.requestId
    w.session.generation (w.journalId use) use.name use.args) .tool rfl run
  split
  · exact .repeated writes (toolDone_onward _ _ _ _)
  split
  · exact .ended writes
  · rename_i created
    exact .intended writes fun keys => startTool_created keys (done out rfl) (by simpa using created)

theorem leaseUse_spec {w : Work} {seen : List Text} {use : ToolUse} {rest : List Json} :
    AgentStep host a db (.intended w seen use rest) (leaseUse host clk w seen use rest db) := by
  unfold leaseUse
  dsimp only
  split
  · rename_i run
    exact .ended (backendCall_spec host clk (.actionEligible w.session.requestId w.session.generation
      (w.journalId use) 5000) .lease rfl run).1
  · rename_i run
    exact .leased _ (backendCall_spec host clk (.actionEligible w.session.requestId w.session.generation
      (w.journalId use) 5000) .lease rfl run).1

theorem executeUse_spec {w : Work} {seen : List Text} {use : ToolUse} {rest : List Json}
    {token : Text} {answer : Option Json} :
    AgentStep host a db (.leased w seen use rest token) (executeUse w seen use rest token answer db) := by
  unfold executeUse
  dsimp only
  split
  · exact .executed (.inl ⟨_, rfl⟩)
  · exact .executed (.inr ⟨_, rfl⟩)

theorem finishUse_spec {w : Work} {seen : List Text} {use : ToolUse} {rest : List Json}
    {token : Text} {result : Json} :
    AgentStep host a db (.executed w seen use rest token result)
      (finishUse host clk a w seen use rest token result db) := by
  unfold finishUse
  dsimp only
  split
  · rename_i run
    exact .ended (backendCall_spec host clk (.finishTool w.session.requestId w.session.generation
      (w.journalId use) result [token]) .tool rfl run).1
  · rename_i run
    exact .completed (backendCall_spec host clk (.finishTool w.session.requestId w.session.generation
      (w.journalId use) result [token]) .tool rfl run).1 (toolDone_onward _ _ _ _)

theorem finishTurn_spec {w : Work} {content : Text} :
    AgentStep host a db (.committing w content) (finishTurn host clk w content db) := by
  unfold finishTurn
  dsimp only
  split <;>
  · rename_i run
    exact .ended (backendCall_spec host clk (.commit w.session.requestId w.session.generation
      { text := content, snapshot := some w.session.package.snapshot }) .turn rfl run).1

/-- **What one step does.** -/
theorem agentMove_spec (world : World) (stage : AgentStage) :
    AgentStep host a db stage (agentMove host world a db stage) := by
  cases stage with
  | entered => exact World.piped_spec enter_spec
  | begun turn => exact World.piped_spec takeTurn_spec
  | opened turn => exact World.piped_spec readSaved_spec
  | asking w => exact World.piped_spec ask_spec
  | dispatching w raw => exact dispatch_spec
  | answered w answer => exact World.piped_spec recordResponse_spec
  | acting w seen calls =>
    cases calls with
    | nil => exact .finished (nextRound_onward w.messages)
    | cons call rest => exact World.piped_spec startUse_spec
  | intended w seen use rest => exact World.piped_spec leaseUse_spec
  | leased w seen use rest token => exact executeUse_spec
  | executed w seen use rest token result => exact World.piped_spec finishUse_spec
  | committing w content => exact World.piped_spec finishTurn_spec
  | returned outcome => exact .ended (.inl rfl)

end Steps

/-- What holds at first and after every event holds after every run. -/
theorem runAgents_inv {host : Host} {P : Agents → Prop} {allowed : AgentEvent → Prop}
    (preserved : ∀ s event, allowed event → P s → P (s.next host event)) :
    ∀ {events : List AgentEvent} {s : Agents}, (∀ event ∈ events, allowed event) → P s →
      P (runAgents host s events)
  | [], _, _, start => start
  | event :: rest, s, all, start => by
      have later : ∀ e ∈ rest, allowed e := fun e member => all e (List.mem_cons_of_mem _ member)
      show P (runAgents host (s.next host event) rest)
      exact runAgents_inv preserved later (preserved s event (all event List.mem_cons_self) start)

end Agent

end Cmpath
