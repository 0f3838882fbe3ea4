import Cmpath.Agent.Dispatch

/-!
# What a resumed run rebuilds

A run that takes a turn over sends again the requests that were sent before, up to the first without a
saved response. What its messages are then is a function of the journal alone (`rebuilt`): the package,
the saved responses and the saved results. The journal only grows until the turn is retired, so the
request a run rebuilds is the one that was checkpointed, byte for byte.
-/

namespace Cmpath
open Lib Lib.Txn

namespace Agent

/-! ## Messages as a function of the journal -/

/-- The tool calls of a message. -/
def toolCallsOf (message : Json) : List Json :=
  match message.get? (Text.lit "tool_calls") with
  | some (.arr calls) => calls
  | _ => []

/-- The message a tool call adds once its result is recorded, and its identifier. -/
def useResult (host : Host) (id : Text) (db : Db) (round : Nat) (done : List Json × List Text)
    (call : Json) : Option (List Json × List Text) :=
  match toolUse host done.2 call with
  | .error _ => none
  | .ok use =>
      (db.tool? id (modelCallId round ++ Text.lit ":" ++ use.id)).bind fun row =>
        if row.status = .completed then
          some (done.1 ++ [toolMessage use.id row.call.result], use.id :: done.2)
        else none

/-- The response that is saved for a round. -/
def savedResponse (host : Host) (id : Text) (db : Db) (round : Nat) : Option Json :=
  (db.modelResponse? id (modelCallId round)).bind fun r => providerResponse host r.responseJson

/-- The messages after a number of rounds, as far as the journal has them. -/
def rebuilt (host : Host) (id : Text) (db : Db) : Nat → Option (List Json)
  | 0 => (db.turn? id).map fun t => t.turn.package.messages.map Message.toJson
  | n + 1 => do
      let messages ← rebuilt host id db n
      let message ← (savedResponse host id db (n + 1)).bind assistant?
      ((toolCallsOf message).foldlM (useResult host id db (n + 1)) (messages ++ [message], [])).map
        Prod.fst

theorem rebuilt_succ {host : Host} {id : Text} {db : Db} {n : Nat} {out : List Json} :
    rebuilt host id db (n + 1) = some out ↔ ∃ before j message seen,
      rebuilt host id db n = some before ∧ savedResponse host id db (n + 1) = some j ∧
        assistant? j = some message ∧ (toolCallsOf message).foldlM (useResult host id db (n + 1))
          (before ++ [message], []) = some (out, seen) := by
  rw [rebuilt]
  simp only [Option.bind_eq_bind, Option.bind_eq_some_iff, Option.map_eq_some_iff, Prod.exists,
    exists_and_right, exists_eq_right]
  constructor
  · rintro ⟨before, first, message, ⟨j, saved, assistant⟩, seen, used⟩
    exact ⟨before, j, message, seen, first, saved, assistant, used⟩
  · rintro ⟨before, j, message, seen, first, saved, assistant, used⟩
    exact ⟨before, first, message, ⟨j, saved, assistant⟩, seen, used⟩

/-! ## The journal of a turn grows -/

/-- The turn is retired. -/
def Retired (id : Text) (db : Db) : Prop := ∃ r ∈ db.retiredTurns, r.requestId = id

/-- What the journal has of a turn it has later on too. -/
structure Extends (id : Text) (a b : Db) : Prop where
  turn : ∀ t, a.turn? id = some t → ∃ u, b.turn? id = some u ∧ u.packageJson = t.packageJson
  call : ∀ m ∈ a.modelCalls, m.requestId = id → m ∈ b.modelCalls
  response : ∀ c r, a.modelResponse? id c = some r → b.modelResponse? id c = some r
  tool : ∀ c row, a.tool? id c = some row → row.status = .completed → b.tool? id c = some row

section Grow

variable {host : Host} {id : Text} {db db' : Db}

theorem Extends.refl (id : Text) (db : Db) : Extends id db db :=
  ⟨fun t found => ⟨t, found, rfl⟩, fun _ member _ => member, fun _ _ found => found,
    fun _ _ found _ => found⟩

/-- Under the keys of the journal a row is found by its key. -/
theorem turn?_of_mem (keys : JournalKeys db.toJournal) {t : TurnRow} (member : t ∈ db.turns) :
    db.turn? t.requestId = some t := keys.turns.find?_eq member

theorem modelResponse?_of_mem (keys : JournalKeys db.toJournal) {r : ModelResponseRow}
    (member : r ∈ db.modelResponses) : db.modelResponse? r.requestId r.callId = some r :=
  keys.responses.find?_eq member

theorem tool?_of_mem (keys : JournalKeys db.toJournal) {c : ToolRow} (member : c ∈ db.toolCalls) :
    db.tool? c.requestId c.callId = some c :=
  keys.tools.find?_eq member

theorem modelResponse?_key {c : Text} {r : ModelResponseRow} (found : db.modelResponse? id c = some r) :
    r ∈ db.modelResponses ∧ r.requestId = id ∧ r.callId = c := by
  have key := List.find?_some found
  simp only [Bool.and_eq_true, beq_iff_eq] at key
  exact ⟨List.mem_of_find?_eq_some found, key⟩

theorem Writes.retired (h : Writes host db db') (keys : JournalKeys db.toJournal)
    (gone : Retired id db) : Retired id db' := by
  obtain ⟨r, member, own⟩ := gone
  rcases h with rfl | ⟨step, rfl⟩
  · exact ⟨r, member, own⟩
  rcases step.change host db with change | evolves
  · exact ⟨r, change.retired_step keys member, own⟩
  · unfold Retired
    rw [evolves.journal]
    exact ⟨r, member, own⟩

variable (id) in
/-- Nothing is lost but by retirement. -/
theorem Writes.extends (h : Writes host db db') (keys : JournalKeys db.toJournal) :
    Retired id db' ∨ Extends id db db' := by
  by_cases gone : Retired id db'
  · exact .inl gone
  have later := h.keys keys
  rcases h with rfl | ⟨step, rfl⟩
  · exact .inr (.refl id _)
  rcases step.change host db with change | evolves
  · have tombless : ∀ {t : TurnRow}, t.requestId = id →
        ¬ Removed (step.performed host db) t (step.next host db) := by
      intro t own removed
      obtain ⟨_, tomb⟩ := removed.tombstone
      exact gone ⟨_, tomb, own⟩
    refine .inr ⟨?_, ?_, ?_, ?_⟩
    · intro t found
      have own := turn?_id found
      rcases change.turn_step keys (turn?_mem found) with ⟨u, member, step⟩ | removed
      · obtain ⟨same, _, _, _, package, _⟩ := step.record
        have there := turn?_of_mem later member
        rw [same, own] at there
        exact ⟨u, there, package⟩
      · exact absurd removed (tombless own)
    · intro m member own
      rcases change.request_step keys member with kept | ⟨t, _, same, removed⟩
      · exact kept
      · exact absurd removed (tombless (same.trans own))
    · intro c r found
      obtain ⟨member, own, name⟩ := modelResponse?_key found
      rcases change.response_step keys member with kept | ⟨t, _, same, removed⟩
      · have there := modelResponse?_of_mem later kept
        rw [own, name] at there
        exact there
      · exact absurd removed (tombless (same.trans own))
    · intro c row found completed
      obtain ⟨own, name⟩ := tool?_key found
      rcases change.tool_row keys (List.mem_of_find?_eq_some found) with
        ⟨d, member, rfl | ⟨started, _⟩⟩ | ⟨t, _, same, removed⟩
      · have there := tool?_of_mem later member
        rw [own, name] at there
        exact there
      · rw [started] at completed
        cases completed
      · exact absurd removed (tombless (same.trans own))
  · -- the writers of the base tables leave the journal alone
    have same : (step.next host db).toJournal = db.toJournal := evolves.journal
    refine .inr ⟨fun t found => ⟨t, ?_, rfl⟩, fun m member _ => ?_, fun c r found => ?_,
      fun c row found _ => ?_⟩
    · unfold Db.turn?
      rw [congrArg Journal.turns same]
      exact found
    · rw [congrArg Journal.modelCalls same]
      exact member
    · unfold Db.modelResponse?
      rw [congrArg Journal.modelResponses same]
      exact found
    · unfold Db.tool?
      rw [congrArg Journal.toolCalls same]
      exact found

theorem useResult_extends (h : Extends id db db') {round : Nat} {done out : List Json × List Text}
    {call : Json} (run : useResult host id db round done call = some out) :
    useResult host id db' round done call = some out := by
  unfold useResult at run ⊢
  split at run
  · cases run
  rename_i use made
  obtain ⟨row, found, answer⟩ := Option.bind_eq_some_iff.mp run
  split at answer
  · rename_i completed
    rw [h.tool _ row found completed, Option.bind_some, if_pos completed]
    exact answer
  · cases answer

theorem results_extend (h : Extends id db db') {round : Nat} : ∀ {calls : List Json}
    {done out : List Json × List Text}, calls.foldlM (useResult host id db round) done = some out →
      calls.foldlM (useResult host id db' round) done = some out
  | [], _, _, run => run
  | call :: rest, done, out, run => by
      rw [List.foldlM_cons] at run ⊢
      obtain ⟨mid, first, later⟩ := Option.bind_eq_some_iff.mp run
      exact Option.bind_eq_some_iff.mpr ⟨mid, useResult_extends h first, results_extend h later⟩

theorem savedResponse_extends (h : Extends id db db') {round : Nat} {j : Json}
    (saved : savedResponse host id db round = some j) : savedResponse host id db' round = some j := by
  obtain ⟨r, found, parsed⟩ := Option.bind_eq_some_iff.mp saved
  exact Option.bind_eq_some_iff.mpr ⟨r, h.response _ r found, parsed⟩

/-- **What was rebuilt once is rebuilt again**, whatever is added to the journal. -/
theorem rebuilt_extends (h : Extends id db db') : ∀ {n : Nat} {messages : List Json},
    rebuilt host id db n = some messages → rebuilt host id db' n = some messages
  | 0, messages, run => by
      obtain ⟨t, found, rfl⟩ := Option.map_eq_some_iff.mp run
      obtain ⟨u, there, package⟩ := h.turn t found
      refine Option.map_eq_some_iff.mpr ⟨u, there, ?_⟩
      rw [TurnRow.turn, TurnRow.turn, package]
  | n + 1, messages, run => by
      obtain ⟨before, j, message, seen, first, saved, assistant, used⟩ := rebuilt_succ.mp run
      exact rebuilt_succ.mpr ⟨before, j, message, seen, rebuilt_extends h first,
        savedResponse_extends h saved, assistant, results_extend h used⟩

end Grow

/-! ## What a run has in hand -/

/-- The calls a run has read are those of the journal. -/
def SavedCalls (id : Text) (db : Db) (w : Work) : Prop :=
  ∀ e ∈ w.saved,
    (∃ m ∈ db.modelCalls, m.requestId = id ∧ m.callId = e.callId ∧ m.payloadJson = e.payloadJson) ∧
      ∀ r, e.responseJson = some r → ∃ row, db.modelResponse? id e.callId = some row ∧ row.responseJson = r

/-- Before the response of a round the messages are those the journal gives. -/
structure Ready (host : Host) (id : Text) (db : Db) (w : Work) : Prop where
  saved : SavedCalls id db w
  messages : ∃ n, w.round = n + 1 ∧ rebuilt host id db n = some w.messages

/-- After it they are those and the results of the tool calls that are done. -/
structure Busy (host : Host) (id : Text) (db : Db) (w : Work) (seen : List Text) (calls : List Json) :
    Prop where
  saved : SavedCalls id db w
  messages : ∃ n before j message done, w.round = n + 1 ∧ rebuilt host id db n = some before ∧
    savedResponse host id db w.round = some j ∧ assistant? j = some message ∧
      toolCallsOf message = done ++ calls ∧
        done.foldlM (useResult host id db w.round) (before ++ [message], []) = some (w.messages, seen)

/-- What a run has in hand is what the journal has. -/
def Faithful (host : Host) (id : Text) (db : Db) : AgentStage → Prop
  | .opened turn => ∃ t, db.turn? id = some t ∧ t.turn.package = turn.package
  | .asking w | .dispatching w _ => Ready host id db w
  | .answered w answer => (∃ t, answer = .raw t) ∧ Ready host id db w
  | .acting w seen calls => Busy host id db w seen calls
  | .intended w seen use rest | .leased w seen use rest _ | .executed w seen use rest _ _ =>
      ∃ before call, toolUse host before call = .ok use ∧ seen = use.id :: before ∧
        Busy host id db w before (call :: rest)
  | _ => True

section Hand

variable {host : Host} {id : Text} {db db' : Db} {a : AgentCall} {w : Work} {seen : List Text}
  {calls : List Json}

theorem SavedCalls.extends (h : SavedCalls id db w) (more : Extends id db db') : SavedCalls id db' w := by
  intro e member
  obtain ⟨⟨m, call, own, name, payload⟩, response⟩ := h e member
  refine ⟨⟨m, more.call m call own, own, name, payload⟩, fun r answered => ?_⟩
  obtain ⟨row, found, same⟩ := response r answered
  exact ⟨row, more.response _ row found, same⟩

theorem Ready.extends (h : Ready host id db w) (more : Extends id db db') : Ready host id db' w := by
  obtain ⟨n, round, messages⟩ := h.messages
  exact ⟨h.saved.extends more, n, round, rebuilt_extends more messages⟩

theorem Busy.extends (h : Busy host id db w seen calls) (more : Extends id db db') :
    Busy host id db' w seen calls := by
  obtain ⟨n, before, j, message, done, round, first, saved, assistant, parts, used⟩ := h.messages
  exact ⟨h.saved.extends more, n, before, j, message, done, round, rebuilt_extends more first,
    savedResponse_extends more saved, assistant, parts, results_extend more used⟩

theorem Faithful.extends {stage : AgentStage} (h : Faithful host id db stage)
    (more : Extends id db db') : Faithful host id db' stage := by
  cases stage with
  | opened turn =>
    obtain ⟨t, found, package⟩ := h
    obtain ⟨u, there, same⟩ := more.turn t found
    refine ⟨u, there, ?_⟩
    rw [← package, TurnRow.turn, TurnRow.turn, same]
  | asking | dispatching =>
    have ready : Ready host id db _ := h
    exact ready.extends more
  | answered => exact ⟨h.1, h.2.extends more⟩
  | acting =>
    have busy : Busy host id db _ _ _ := h
    exact busy.extends more
  | intended | leased | executed =>
    obtain ⟨before, call, made, same, busy⟩ := h
    exact ⟨before, call, made, same, busy.extends more⟩
  | _ => trivial

/-- The next tool call, or the next round: its messages are the journal's by then. -/
theorem Busy.nextTool (h : Busy host id db w seen calls) :
    Faithful host id db (nextTool a w seen calls) := by
  cases calls with
  | cons call rest => exact h
  | nil =>
    obtain ⟨n, before, j, message, done, round, first, saved, assistant, parts, used⟩ := h.messages
    rw [List.append_nil] at parts
    show Faithful host id db (nextRound a w)
    unfold nextRound
    split
    · refine ⟨h.saved, n + 1, by rw [round], ?_⟩
      rw [round] at saved used
      rw [← parts] at used
      exact rebuilt_succ.mpr ⟨before, j, message, seen, first, saved, assistant, used⟩
    · trivial

/-- A response that is in the journal is acted on as it would be later. -/
theorem Ready.respond (h : Ready host id db w) {j : Json}
    (saved : savedResponse host id db w.round = some j) :
    Faithful host id db (respond a w j) := by
  obtain ⟨n, round, messages⟩ := h.messages
  unfold Agent.respond
  split
  · trivial
  rename_i message assistant
  dsimp only
  split
  · rename_i call rest listed
    have busy : Busy host id db { w with messages := w.messages ++ [message] } [] (call :: rest) := by
      refine ⟨h.saved, n, w.messages, j, message, [], round, messages, saved, assistant, ?_, rfl⟩
      unfold toolCallsOf
      rw [listed]
      rfl
    exact busy.nextTool
  split
  · split <;> trivial
  · trivial

/-- A tool call whose result is recorded is done. -/
theorem Busy.done {before : List Text} {call : Json} {rest : List Json} {use : ToolUse} {row : ToolRow}
    (h : Busy host id db w before (call :: rest)) (made : toolUse host before call = .ok use)
    (found : db.tool? id (w.journalId use) = some row) (completed : row.status = .completed) :
    Faithful host id db (toolDone a w (use.id :: before) use rest row.call.result) := by
  obtain ⟨n, first, j, message, done, round, messages, saved, assistant, parts, used⟩ := h.messages
  have busy : Busy host id db
      { w with messages := w.messages ++ [toolMessage use.id row.call.result] } (use.id :: before) rest := by
    refine ⟨h.saved, n, first, j, message, done ++ [call], round, messages, saved, assistant, ?_, ?_⟩
    · rw [parts, List.append_assoc]
      rfl
    · rw [List.foldlM_append, used]
      show useResult host id db w.round (w.messages, before) call >>= pure = _
      have step : useResult host id db w.round (w.messages, before) call =
          some (w.messages ++ [toolMessage use.id row.call.result], use.id :: before) := by
        unfold useResult
        rw [made]
        dsimp only
        rw [show db.tool? id (modelCallId w.round ++ Text.lit ":" ++ use.id) = some row from found,
          Option.bind_some, if_pos completed]
      rw [step]
      rfl
  exact busy.nextTool

end Hand

/-! ## Who writes checkpoints -/

/-- The operation records no model request of the turn. -/
def Op.sparesRequests (id : Text) : Op → Prop
  | .recordModelRequest other _ _ _ _ _ => other ≠ id
  | _ => True

/-- The transaction records no model request of the turn. -/
def Step.sparesRequests (id : Text) (step : Step) : Prop :=
  ∀ op, step.action = .engine op → Op.sparesRequests id op

/-- No model request of the turn is new. -/
def Spares (id : Text) (a b : Db) : Prop := ∀ m ∈ b.modelCalls, m.requestId = id → m ∈ a.modelCalls

section Spares

variable {host : Host} {clk : Clock} {id : Text} {db db' : Db}

theorem Spares.of_journal (same : db'.toJournal = db.toJournal) : Spares id db db' := by
  intro m member _
  rw [congrArg Journal.modelCalls same] at member
  exact member

theorem spares_of_read {α : Type} {q : Query α} {respond : α → Response} {out : Response}
    (h : responding respond (read q) db = .ok (out, db')) : Spares id db db' := by
  obtain ⟨a, run, _⟩ := responding_ok.mp h
  rw [(read_ok.mp run).2]
  exact fun m member _ => member

/-- Only `RecordModelRequest` adds a model request. -/
theorem Op.spares {op : Op} {out : Response} (keys : JournalKeys db.toJournal)
    (other : Op.sparesRequests id op) (h : op.run host clk db = .ok (out, db')) : Spares id db db' := by
  cases op with
  | createTask input =>
    obtain ⟨_, run, _⟩ := responding_ok.mp h
    exact .of_journal (keeps_createTask _ _ _ _ _ _ run).journal
  | appendBatch inputs =>
    obtain ⟨_, run, _⟩ := responding_ok.mp h
    have kept : Evolves Write.Any db db' := keeps_appendBatch (fun _ => trivial) _ _ _ _ _ run
    exact .of_journal kept.journal
  | setFact taskId f =>
    obtain ⟨_, run, _⟩ := responding_ok.mp h
    have kept : Evolves Write.Silent db db' := keeps_setFact (fun _ => trivial) _ _ _ _ _ _ run
    exact .of_journal kept.journal
  | begin r custom =>
    obtain ⟨_, run, _⟩ := responding_ok.mp h
    obtain ⟨_, _, _, ⟨_, _, _, _, _, rfl⟩ | ⟨_, _, _, begun, _⟩⟩ := begin_ok run
    · exact fun m member _ => member
    · intro m member _
      rw [congrArg Journal.modelCalls begun.journal] at member
      exact member
  | commit rid generation reply =>
    obtain ⟨_, run, _⟩ := responding_ok.mp h
    obtain ⟨_, _, _, _, _, _, rfl⟩ | ⟨_, _, _, _, _, done⟩ := commit_ok run
    · exact fun m member _ => member
    · intro m member _
      rw [congrArg Journal.modelCalls done.journal] at member
      exact member
  | recover rid generation =>
    obtain ⟨_, run, _⟩ := responding_ok.mp h
    obtain ⟨_, _, _, _, _, _, _, rfl⟩ := recover_ok run
    exact fun m member _ => member
  | abort rid generation =>
    obtain ⟨_, run, _⟩ := responding_ok.mp h
    obtain ⟨_, _, _, _, rfl⟩ := abort_ok run
    exact fun m member _ => member
  | actionEligible rid generation callId ttlMs =>
    obtain ⟨_, run, _⟩ := responding_ok.mp h
    obtain ⟨_, _, _, _, _, _, _, _, _, _, _, _, _, _, _, rfl⟩ := actionEligible_ok run
    exact fun m member _ => member
  | startTool rid generation callId name args =>
    obtain ⟨_, run, _⟩ := responding_ok.mp h
    obtain ⟨_, _, _, _, _, _, ⟨_, _, _, _, rfl⟩ | ⟨_, _, _, _, rfl⟩⟩ := startTool_ok run
    · exact fun m member _ => member
    · exact fun m member _ => member
  | finishTool rid generation callId result tokens =>
    obtain ⟨_, run, _⟩ := responding_ok.mp h
    obtain ⟨_, _, _, _, _, _, ⟨_, rfl⟩ | ⟨_, finished⟩⟩ := finishTool_ok run
    · exact fun m member _ => member
    · obtain ⟨_, _, journal⟩ := finished.journal
      intro m member _
      rw [congrArg Journal.modelCalls journal] at member
      exact member
  | recordModelRequest rid generation callId payload units counting =>
    obtain ⟨_, run, _⟩ := responding_ok.mp h
    obtain ⟨_, _, _, _, _, _, _, _, ⟨_, _, rfl⟩ | ⟨_, _, rfl⟩⟩ := recordModelRequest_ok run
    · exact fun m member _ => member
    · intro m member own
      rcases List.mem_append.mp member with old | new
      · exact old
      · rw [List.mem_singleton.mp new] at own
        exact absurd own other
  | recordModelResponse rid generation callId response =>
    obtain ⟨_, run, _⟩ := responding_ok.mp h
    obtain ⟨_, _, _, _, _, _, _, ⟨_, _, rfl⟩ | ⟨_, rfl⟩⟩ := recordModelResponse_ok run
    · exact fun m member _ => member
    · exact fun m member _ => member
  | applyRetention cutoff planHash =>
    obtain ⟨_, run, _⟩ := responding_ok.mp h
    obtain ⟨_, _, _, _, rfl⟩ := applyRetention_ok run
    intro m member _
    rw [congrArg Journal.modelCalls (retireAll_journal keys _ _)] at member
    exact (Table.mem_delete.mp member).1
  | retentionPlan cutoff => exact spares_of_read h
  | task id => exact spares_of_read h
  | turn id => exact spares_of_read h
  | tools id => exact spares_of_read h
  | modelCalls id => exact spares_of_read h
  | search query ids limit => exact spares_of_read h
  | preview r custom => exact spares_of_read h

theorem Step.spares {step : Step} (keys : JournalKeys db.toJournal) (other : Step.sparesRequests id step) :
    Spares id db (step.next host db) := by
  have none_ : Spares id db db := fun m member _ => member
  cases same : step.action with
  | engine op =>
    refine step.next_cases none_ fun out db' run => ?_
    rw [same] at run
    exact Op.spares keys (other op same) run
  | memory op =>
    refine step.next_cases none_ fun out db' run => ?_
    rw [same] at run
    exact .of_journal (keeps_memory host step.clk op db out db' run).journal
  | direct write =>
    refine step.next_cases none_ fun out db' run => ?_
    rw [same] at run
    exact .of_journal (keeps_direct_run write db out db' run).journal

variable (host id) in
/-- A request through the pipe, but for one that records a model request of the turn. -/
theorem backendCall_spares {α : Type} {operation : String} {arguments : Json} {decodes : Bool}
    {t : Tx α} (clk : Clock) (op : Op) (respond : α → Response)
    (same : op.run host clk = responding respond t) (keys : JournalKeys db.toJournal)
    (other : Op.sparesRequests id op) {result : Except HostError α}
    (run : backendCall operation arguments decodes t db = (result, db')) : Spares id db db' := by
  have none_ : Spares id db db := fun m member _ => member
  unfold backendCall at run
  split at run
  · cases run
    exact none_
  split at run
  · cases run
    exact none_
  split at run
  · rename_i out after done
    cases run
    have ran : op.run host clk db = .ok (respond out, db') := by
      rw [same]
      exact responding_ok.mpr ⟨out, atomic_ok.mp done, rfl⟩
    exact Op.spares keys other ran
  · rename_i failure after failed
    cases run
    rw [atomic_error failed]
    exact none_

end Spares

end Agent

end Cmpath
