import Cmpath.Agent.Rebuild

/-!
# A resumed run agrees with its checkpoints

Where all runs of a request have one configuration, the provider's answers are kept as they came and
nobody else writes model requests of the turn, every checkpoint of a model call is the request that any
run rebuilds when it comes to this call.
-/

namespace Cmpath
open Lib Lib.Txn

namespace Agent

/-- The checkpoint holds the request that the journal gives for its round. -/
def Checkpoint (host : Host) (c : AgentConfig) (db : Db) (m : ModelCallRow) : Prop :=
  ∃ w n, m.callId = modelCallId w.round ∧ w.round = n + 1 ∧
    rebuilt host c.requestId db n = some w.messages ∧ m.payloadJson = (payload c w).dumps

/-- Requests with the same messages are the same. -/
theorem payload_messages {c : AgentConfig} {v w : Work} (same : v.messages = w.messages) :
    payload c v = payload c w := by
  unfold payload
  rw [same]

/-! ## Where the reconstruction check has no say -/

section Agree

variable {a : AgentCall} {w : Work}

theorem nextRound_agrees : nextRound a w ≠ .returned (.error .checkpointDiffers) := by
  unfold nextRound
  split <;> exact nofun

theorem nextTool_agrees {seen : List Text} {calls : List Json} :
    nextTool a w seen calls ≠ .returned (.error .checkpointDiffers) := by
  cases calls with
  | nil => exact nextRound_agrees
  | cons call rest => exact nofun

theorem respond_agrees {response : Json} :
    respond a w response ≠ .returned (.error .checkpointDiffers) := by
  unfold respond
  split
  · exact nofun
  dsimp only
  split
  · exact nextTool_agrees
  split
  · split <;> exact nofun
  · exact nofun

theorem countUnits_agrees {raw : Text} {e : AgentError} (failed : countUnits a raw = .error e) :
    e ≠ .checkpointDiffers := by
  unfold countUnits at failed
  split at failed
  · split at failed
    · cases failed
      exact nofun
    · cases failed
  · split at failed
    · cases failed
      exact nofun
    · split at failed
      · cases failed
        exact nofun
      · cases failed

theorem toolUse_agrees {host : Host} {seen : List Text} {call : Json} {e : AgentError}
    (failed : toolUse host seen call = .error e) : e ≠ .checkpointDiffers := by
  unfold toolUse at failed
  split at failed
  · split at failed
    · cases failed
      exact nofun
    · dsimp only at failed
      split at failed
      · split at failed
        · cases failed
        · cases failed
          exact nofun
      · cases failed
        exact nofun
  · cases failed
    exact nofun

end Agree

/-- A request that fails leaves the database alone. -/
theorem backendCall_failed {α : Type} {operation : String} {arguments : Json} {decodes : Bool}
    {t : Tx α} {db db' : Db} {e : HostError}
    (run : backendCall operation arguments decodes t db = (.error e, db')) : db' = db := by
  unfold backendCall at run
  split at run
  · cases run
    rfl
  split at run
  · cases run
    rfl
  split at run
  · cases run
  · rename_i failed
    cases run
    exact atomic_error failed

section Requests

variable {host : Host} {clk : Clock} {a : AgentCall} {db : Db}

/-- What a step leaves: a model request is old or this run's own, and what the run has in hand is what
    the journal has. -/
structure Rebuilds (host : Host) (a : AgentCall) (db : Db) (stage : AgentStage) (m : AgentMove) :
    Prop where
  calls : ∀ r ∈ m.db.modelCalls, r ∈ db.modelCalls ∨ (r.requestId = a.config.requestId ∧
    ∃ w, stage = .asking w ∧ r.callId = modelCallId w.round ∧
      r.payloadJson = (payload a.config w).dumps)
  stage : Retired a.config.requestId m.db ∨ Faithful host a.config.requestId m.db m.stage
  agrees : m.stage ≠ .returned (.error .checkpointDiffers)

/-- A step that records no model request. -/
theorem Rebuilds.of_spares {stage : AgentStage} {m : AgentMove} (spares : ∀ id, Spares id db m.db)
    (faithful : Retired a.config.requestId m.db ∨ Faithful host a.config.requestId m.db m.stage)
    (agrees : m.stage ≠ .returned (.error .checkpointDiffers)) : Rebuilds host a db stage m :=
  ⟨fun r member => .inl (spares r.requestId r member rfl), faithful, agrees⟩

theorem Rebuilds.over {stage : AgentStage} {e : AgentError} {db' : Db}
    (spares : ∀ id, Spares id db db') (other : e ≠ .checkpointDiffers) :
    Rebuilds host a db stage (stop e db') := by
  refine .of_spares spares (.inr trivial) fun same => other ?_
  cases same
  rfl

theorem Rebuilds.piped {stage : AgentStage} {m : AgentMove} (h : Rebuilds host a db stage m)
    (world : World) : Rebuilds host a db stage (world.piped m db) := by
  have agrees : AgentStage.returned (.error .lost) ≠ .returned (.error .checkpointDiffers) := by
    intro same
    cases same
  unfold World.piped
  cases world.broken with
  | none => exact h
  | some ran =>
    cases ran with
    | true => exact ⟨h.calls, .inr trivial, agrees⟩
    | false => exact ⟨fun r member => .inl member, .inr trivial, agrees⟩

/-- The calls that `ModelCalls` returns are the rows of the turn. -/
theorem modelCalls_saved {id : Text} {saved : List ModelCall} (run : modelCalls id db = .ok saved)
    (w : Work) (same : w.saved = saved) : SavedCalls id db w := by
  unfold modelCalls at run
  cases live : turn id db with
  | error e =>
    rw [live] at run
    cases run
  | ok out =>
    rw [live] at run
    cases run
    intro e member
    rw [same] at member
    obtain ⟨m, kept, rfl⟩ := List.mem_map.mp member
    obtain ⟨row, own⟩ := List.mem_filter.mp kept
    rw [beq_iff_eq] at own
    refine ⟨⟨m, row, own, rfl, rfl⟩, fun r answered => ?_⟩
    obtain ⟨response, found, rfl⟩ := Option.map_eq_some_iff.mp answered
    rw [own] at found
    exact ⟨response, found, rfl⟩

/-- The checkpoint of a call agrees with what the run has sent, or is about to send. -/
theorem checkpointed_rebuilds {w : Work} {raw : Text} {db' : Db}
    (calls : ∀ r ∈ db'.modelCalls, r ∈ db.modelCalls ∨ (r.requestId = a.config.requestId ∧
      r.callId = modelCallId w.round ∧ r.payloadJson = (payload a.config w).dumps))
    (ready : Ready host a.config.requestId db' w)
    (same : ∀ m ∈ w.saved, m.callId = modelCallId w.round → m.payloadJson = raw) :
    Rebuilds host a db (.asking w) (checkpointed host a w raw db') := by
  have old : ∀ r ∈ db'.modelCalls, r ∈ db.modelCalls ∨ (r.requestId = a.config.requestId ∧
      ∃ v, AgentStage.asking w = .asking v ∧ r.callId = modelCallId v.round ∧
        r.payloadJson = (payload a.config v).dumps) := by
    intro r member
    exact (calls r member).imp_right fun ⟨own, name, sent⟩ => ⟨own, w, rfl, name, sent⟩
  unfold checkpointed
  split
  · exact ⟨old, .inr ready, nofun⟩
  rename_i m previous
  obtain ⟨member, name⟩ := Work.previous_some previous
  rw [if_neg (by rw [same m member name]; simp)]
  split
  · exact ⟨old, .inr ready, nofun⟩
  rename_i response answered
  obtain ⟨row, found, text⟩ := (ready.saved m member).2 response answered
  split
  · exact ⟨old, .inr trivial, nofun⟩
  · rename_i j parsed
    rw [name] at found
    refine ⟨old, .inr (ready.respond ?_), respond_agrees⟩
    exact Option.bind_eq_some_iff.mpr ⟨row, found, by rw [text]; exact parsed⟩

theorem dispatch_rebuilds {w : Work} {raw : Text} {answer : Option ProviderAnswer}
    (kept : ∀ j, answer ≠ some (.value j))
    (faithful : Retired a.config.requestId db ∨
      Faithful host a.config.requestId db (.dispatching w raw)) :
    Rebuilds host a db (.dispatching w raw) (dispatch host a w answer db) := by
  have stays : ∀ id, Spares id db db := fun id m member _ => member
  unfold dispatch
  dsimp only
  split
  · exact .of_spares stays (.inr trivial) nofun
  · rename_i t
    split
    · exact .of_spares stays (faithful.imp_right fun ready => ⟨⟨t, rfl⟩, ready⟩) nofun
    · exact .of_spares stays (.inr trivial) nofun
  · rename_i j
    exact absurd rfl (kept j)

/-- What `RecordModelResponse` accepts is what the journal has then. -/
theorem recordModelResponse_saved {id : Text} {generation : Int} {callId response : Text} {u : Unit}
    {db' : Db} (run : recordModelResponse host clk id generation callId response db = .ok (u, db')) :
    ∃ row, db'.modelResponse? id callId = some row ∧ row.responseJson = response := by
  simp only [recordModelResponse, bind_ok, ensure_ok, read_ok, require_ok, Except.ok.injEq] at run
  obtain ⟨_, _, ⟨text, rfl⟩, ⟨⟩, _, ⟨json, rfl⟩, _, _, ⟨object, rfl⟩, t, _, ⟨current, rfl⟩, _, _,
    ⟨request, rfl⟩, old, _, ⟨rfl, rfl⟩, run⟩ := run
  rename_i db
  cases known : db.modelResponse? id callId with
  | some row =>
    rw [known] at run
    obtain ⟨same, rfl⟩ := ensure_ok.mp run
    exact ⟨row, known, by simpa using same⟩
  | none =>
    rw [known] at run
    simp only [insertModelResponse, bind_ok, modify_ok] at run
    obtain ⟨_, _, turn, _, _, free, rfl⟩ := run
    obtain ⟨_, rfl⟩ := require_ok.mp turn
    obtain ⟨_, rfl⟩ := require_ok.mp free
    refine ⟨⟨id, callId, response, clk.now 0⟩, ?_, rfl⟩
    unfold Db.modelResponse? at known ⊢
    rw [List.find?_append, known]
    simp

theorem recordResult_row {id callId : Text} {taskId : Int} {call : ToolRow} {raw : Json}
    {out : ToolCall} {db' : Db} (run : recordResult clk id callId taskId call raw db = .ok (out, db')) :
    ∃ row, db'.tool? id callId = some row ∧ out = row.call := by
  unfold recordResult at run
  obtain ⟨_, _, _, run⟩ := bind_ok.mp run
  obtain ⟨_, _, _, run⟩ := bind_ok.mp run
  obtain ⟨_, _, _, run⟩ := bind_ok.mp run
  obtain ⟨_, _, _, run⟩ := bind_ok.mp run
  obtain ⟨_, _, _, run⟩ := bind_ok.mp run
  obtain ⟨_, _, _, run⟩ := bind_ok.mp run
  obtain ⟨row, _, last, run⟩ := bind_ok.mp run
  obtain ⟨rfl, rfl⟩ := pure_ok.mp run
  obtain ⟨found, rfl⟩ := read_ok.mp last
  exact ⟨row, toolRow_ok.mp found, rfl⟩

/-- What `FinishTool` answers is the result the journal has then. -/
theorem finishTool_row {id : Text} {generation : Int} {callId : Text} {result : Json}
    {tokens : List Text} {out : ToolCall} {db' : Db}
    (run : finishTool host clk id generation callId result tokens db = .ok (out, db')) :
    ∃ row, db'.tool? id callId = some row ∧ row.status = .completed ∧ out = row.call := by
  obtain ⟨t, call, live, _, _, known, finished⟩ := finishTool_ok run
  simp only [finishTool, bind_ok, read_ok, toolRow_ok] at run
  obtain ⟨_, _, ⟨_, rfl⟩, found, _, ⟨same, rfl⟩, run⟩ := run
  rw [known] at same
  cases same
  split at run
  · rename_i completed
    split at run
    · exact (fail_ok.mp run).elim
    · obtain ⟨rfl, rfl⟩ := pure_ok.mp run
      exact ⟨call, known, completed, rfl⟩
  · rename_i open_
    obtain ⟨started, done⟩ := finished.resolve_left fun both => open_ both.1
    obtain ⟨c, e, _, _, there, _⟩ := (done.recorded live known started).call
    obtain ⟨_, _, _, recorded⟩ := bind_ok.mp run
    obtain ⟨row, last, rfl⟩ := recordResult_row recorded
    rw [there] at last
    cases last
    exact ⟨_, there, rfl, rfl⟩

variable (keys : JournalKeys db.toJournal)
include keys

theorem enter_rebuilds : Rebuilds host a db .entered (enter host clk a db) := by
  unfold enter
  split
  · rename_i run
    exact .over (fun id => backendCall_spares host id clk (.begin (a.request host) []) .turn rfl keys trivial run)
      nofun
  rename_i turn db' run
  have spares : ∀ id, Spares id db db' := fun id =>
    backendCall_spares host id clk (.begin (a.request host) []) .turn rfl keys trivial run
  obtain ⟨writes, done⟩ := backendCall_spec host clk (.begin (a.request host) []) .turn rfl run
  split
  · exact .of_spares spares (.inr trivial) nofun
  by_cases created : turn.created = true
  · rw [if_pos created]
    refine .of_spares spares (.inr ?_) nofun
    obtain ⟨n, c, normal, ⟨_, _, _, _, rfl, _⟩ | ⟨row, payload, basis, begun, rfl⟩⟩ :=
      begin_ok (done _ rfl)
    · cases created
    · have named : n.requestId = a.config.requestId := by rw [(normalizeRequest_ok normal).kept]; rfl
      have member : newTurn host clk n row.reopenedRevision payload ∈ db'.turns := by
        rw [begun.after]
        exact List.mem_append_right _ (List.mem_singleton_self _)
      have found := turn?_of_mem (writes.keys keys) member
      refine ⟨_, ?_, rfl⟩
      rw [← named]
      exact found
  rw [if_neg created]
  split
  · exact .of_spares spares (.inr trivial) nofun
  · exact .over spares nofun

theorem takeTurn_rebuilds {turn : Turn} :
    Rebuilds host a db (.begun turn) (takeTurn clk a turn db) := by
  unfold takeTurn
  split
  · rename_i run
    refine .over (fun id => backendCall_spares host id clk
      (.recover a.config.requestId turn.generation) .turn rfl keys trivial run) ?_
    intro same
    cases same
  · rename_i out db' run
    have spares : ∀ id, Spares id db db' := fun id => backendCall_spares host id clk
      (.recover a.config.requestId turn.generation) .turn rfl keys trivial run
    obtain ⟨_, done⟩ := backendCall_spec host clk
      (.recover a.config.requestId turn.generation) .turn rfl run
    have recovered := done _ rfl
    simp only [recover, bind_ok, read_ok] at recovered
    obtain ⟨_, _, _, _, _, _, _, _, _, _, _, _, last, rfl⟩ := recovered
    obtain ⟨u, found, rfl⟩ := turn_ok.mp last
    refine .of_spares spares (.inr ⟨u, found, rfl⟩) ?_
    intro same
    cases same

theorem readSaved_rebuilds {turn : Turn} (faithful : Retired a.config.requestId db ∨
    Faithful host a.config.requestId db (.opened turn)) :
    Rebuilds host a db (.opened turn) (readSaved a turn db) := by
  unfold readSaved
  split
  · rename_i run
    exact .over (fun id => backendCall_spares host id plainClock
      (.modelCalls a.config.requestId) .models rfl keys trivial run) nofun
  · rename_i saved db' run
    obtain ⟨_, done⟩ := backendCall_spec host plainClock (.modelCalls a.config.requestId)
      .models rfl run
    obtain ⟨found, rfl⟩ := read_ok.mp (done saved rfl)
    refine .of_spares (fun id m member _ => member) ?_ nextRound_agrees
    refine faithful.imp_right fun opened => ?_
    obtain ⟨t, live, package⟩ := opened
    unfold nextRound
    split
    · refine ⟨modelCalls_saved found _ rfl, 0, rfl, ?_⟩
      exact Option.map_eq_some_iff.mpr ⟨t, live, by rw [package]⟩
    · trivial

/-- A turn that is there is not retired. -/
theorem not_retired {t : TurnRow} {id : Text} (live : db.turn? id = some t) : ¬ Retired id db := by
  rintro ⟨r, member, own⟩
  exact keys.apart t (turn?_mem live) r member (own.trans (turn?_id live).symm)

theorem ask_rebuilds {w : Work} (own : w.session.requestId = a.config.requestId)
    (faithful : Retired a.config.requestId db ∨ Faithful host a.config.requestId db (.asking w))
    (checks : ∀ m ∈ db.modelCalls, m.requestId = a.config.requestId → Checkpoint host a.config db m) :
    Rebuilds host a db (.asking w) (ask host a w db) := by
  have stays : ∀ id, Spares id db db := fun id m member _ => member
  unfold ask
  split
  · exact .over stays nofun
  split
  · exact .over stays nofun
  dsimp only
  split
  · rename_i failed
    exact .over stays (countUnits_agrees failed)
  rename_i units counting _
  split
  · rename_i run
    rw [backendCall_failed run]
    exact .over stays nofun
  · rename_i db' run
    obtain ⟨writes, done⟩ := backendCall_spec host plainClock (.recordModelRequest w.session.requestId
      w.session.generation (modelCallId w.round) (payload a.config w).dumps units counting)
      (fun _ => .done) rfl run
    obtain ⟨_, _, _, t, live, _, _, _, made⟩ := recordModelRequest_ok (done () rfl)
    rw [own] at live made
    have alive : ¬ Retired a.config.requestId db := not_retired keys live
    have ready : Ready host a.config.requestId db w := faithful.resolve_left alive
    have tombs : db'.retiredTurns = db.retiredTurns := by
      rcases made with ⟨_, _, rfl⟩ | ⟨_, _, rfl⟩ <;> rfl
    have more : Extends a.config.requestId db db' := by
      refine (writes.extends _ keys).resolve_left ?_
      unfold Retired
      rw [tombs]
      exact alive
    refine checkpointed_rebuilds ?_ (ready.extends more) ?_
    · intro r member
      rcases made with ⟨_, _, rfl⟩ | ⟨_, _, rfl⟩
      · exact .inl member
      · rcases List.mem_append.mp member with old | new
        · exact .inl old
        · rw [List.mem_singleton.mp new]
          exact .inr ⟨rfl, rfl, rfl⟩
    · intro m member name
      obtain ⟨⟨row, call, rid, cid, text⟩, _⟩ := ready.saved m member
      obtain ⟨v, n, callId, round, messages, sent⟩ := checks row call rid
      obtain ⟨k, here, mine⟩ := ready.messages
      have rounds : v.round = w.round := modelCallId_inj (callId.symm.trans (cid.trans name))
      have equal_ : n = k := by omega
      rw [equal_, mine] at messages
      rw [← text, sent, payload_messages (Option.some.inj messages).symm]

theorem recordResponse_rebuilds {w : Work} {answer : ProviderAnswer}
    (own : w.session.requestId = a.config.requestId)
    (faithful : Retired a.config.requestId db ∨
      Faithful host a.config.requestId db (.answered w answer)) :
    Rebuilds host a db (.answered w answer) (recordResponse host clk a w answer db) := by
  have stays : ∀ id, Spares id db db := fun id m member _ => member
  unfold recordResponse
  split
  · exact .over stays nofun
  rename_i j raw parsed
  split
  · rename_i run
    rw [backendCall_failed run]
    exact .over stays nofun
  · rename_i db' run
    have spares : ∀ id, Spares id db db' := fun id => backendCall_spares host id clk
      (.recordModelResponse w.session.requestId w.session.generation (modelCallId w.round) raw)
      (fun _ => .done) rfl keys trivial run
    obtain ⟨writes, done⟩ := backendCall_spec host clk (.recordModelResponse w.session.requestId
      w.session.generation (modelCallId w.round) raw) (fun _ => .done) rfl run
    refine .of_spares spares ?_ respond_agrees
    rcases writes.extends a.config.requestId keys with gone | more
    · exact .inl gone
    refine faithful.imp (writes.retired keys) fun opened => ?_
    obtain ⟨⟨t, rfl⟩, ready⟩ := opened
    obtain ⟨row, found, text⟩ := recordModelResponse_saved (done () rfl)
    rw [own] at found
    refine (ready.extends more).respond (Option.bind_eq_some_iff.mpr ⟨row, found, ?_⟩)
    -- the text that was parsed is the text that was saved
    obtain ⟨value, read, same⟩ := Option.map_eq_some_iff.mp
      (show (providerResponse host t).map (fun j => (j, t)) = some (j, raw) from parsed)
    cases same
    rw [text]
    exact read

theorem startUse_rebuilds {w : Work} {seen : List Text} {call : Json} {rest : List Json}
    (own : w.session.requestId = a.config.requestId)
    (faithful : Retired a.config.requestId db ∨
      Faithful host a.config.requestId db (.acting w seen (call :: rest))) :
    Rebuilds host a db (.acting w seen (call :: rest)) (startUse host a w seen call rest db) := by
  have stays : ∀ id, Spares id db db := fun id m member _ => member
  unfold startUse
  split
  · rename_i e failed
    exact .over stays (toolUse_agrees failed)
  rename_i use made
  dsimp only
  split
  · rename_i run
    rw [backendCall_failed run]
    exact .over stays nofun
  rename_i out db' run
  have spares : ∀ id, Spares id db db' := fun id => backendCall_spares host id plainClock
    (.startTool w.session.requestId w.session.generation (w.journalId use) use.name use.args) .tool rfl
    keys trivial run
  obtain ⟨writes, done⟩ := backendCall_spec host plainClock (.startTool w.session.requestId
    w.session.generation (w.journalId use) use.name use.args) .tool rfl run
  have later : Retired a.config.requestId db' ∨
      Faithful host a.config.requestId db' (.acting w seen (call :: rest)) := by
    rcases writes.extends a.config.requestId keys with gone | more
    · exact .inl gone
    · exact faithful.imp (writes.retired keys) fun busy => busy.extends more
  split
  · rename_i completed
    refine .of_spares spares ?_ nextTool_agrees
    obtain ⟨_, _, _, _, _, _, ⟨row, found, _, rfl, rfl⟩ | ⟨_, _, _, started, _⟩⟩ :=
      startTool_ok (done out rfl)
    · rw [own] at found
      exact later.imp_right fun busy => Busy.done busy made found completed
    · rw [started] at completed
      cases completed
  split
  · exact .over spares nofun
  · exact .of_spares spares (later.imp_right fun busy => ⟨seen, call, made, rfl, busy⟩) nofun

theorem leaseUse_rebuilds {w : Work} {seen : List Text} {use : ToolUse} {rest : List Json}
    (faithful : Retired a.config.requestId db ∨
      Faithful host a.config.requestId db (.intended w seen use rest)) :
    Rebuilds host a db (.intended w seen use rest) (leaseUse host clk w seen use rest db) := by
  unfold leaseUse
  dsimp only
  split
  · rename_i run
    rw [backendCall_failed run]
    exact .over (fun id m member _ => member) nofun
  rename_i out db' run
  have spares : ∀ id, Spares id db db' := fun id => backendCall_spares host id clk
    (.actionEligible w.session.requestId w.session.generation (w.journalId use) 5000) .lease rfl keys
    trivial run
  obtain ⟨writes, _⟩ := backendCall_spec host clk (.actionEligible w.session.requestId
    w.session.generation (w.journalId use) 5000) .lease rfl run
  refine .of_spares spares ?_ nofun
  rcases writes.extends a.config.requestId keys with gone | more
  · exact .inl gone
  · exact faithful.imp (writes.retired keys) fun busy => busy.extends more

theorem finishUse_rebuilds {w : Work} {seen : List Text} {use : ToolUse} {rest : List Json}
    {token : Text} {result : Json} (own : w.session.requestId = a.config.requestId)
    (faithful : Retired a.config.requestId db ∨
      Faithful host a.config.requestId db (.executed w seen use rest token result)) :
    Rebuilds host a db (.executed w seen use rest token result)
      (finishUse host clk a w seen use rest token result db) := by
  unfold finishUse
  dsimp only
  split
  · rename_i run
    rw [backendCall_failed run]
    exact .over (fun id m member _ => member) nofun
  rename_i out db' run
  have spares : ∀ id, Spares id db db' := fun id => backendCall_spares host id clk
    (.finishTool w.session.requestId w.session.generation (w.journalId use) result [token]) .tool rfl
    keys trivial run
  obtain ⟨writes, done⟩ := backendCall_spec host clk (.finishTool w.session.requestId
    w.session.generation (w.journalId use) result [token]) .tool rfl run
  refine .of_spares spares ?_ nextTool_agrees
  rcases writes.extends a.config.requestId keys with gone | more
  · exact .inl gone
  refine faithful.imp (writes.retired keys) fun executed => ?_
  obtain ⟨before, call, made, rfl, busy⟩ := executed.extends more
  obtain ⟨row, found, completed, rfl⟩ := finishTool_row (done out rfl)
  rw [own] at found
  exact busy.done made found completed

theorem finishTurn_rebuilds {w : Work} {content : Text} :
    Rebuilds host a db (.committing w content) (finishTurn host clk w content db) := by
  unfold finishTurn
  dsimp only
  split
  · rename_i run
    rw [backendCall_failed run]
    exact .over (fun id m member _ => member) nofun
  · rename_i out db' run
    have spares : ∀ id, Spares id db db' := fun id => backendCall_spares host id clk
      (.commit w.session.requestId w.session.generation
        { text := content, snapshot := some w.session.package.snapshot }) .turn rfl keys trivial run
    exact .of_spares spares (.inr trivial) nofun

/-- **What one step leaves is what the journal has.** -/
theorem agentMove_rebuilds {world : World} {stage : AgentStage} (kept : ∀ j, world.provider ≠ some (.value j))
    (own : ∀ t, stage.session = some t → t.requestId = a.config.requestId)
    (agrees : stage ≠ .returned (.error .checkpointDiffers))
    (faithful : Retired a.config.requestId db ∨ Faithful host a.config.requestId db stage)
    (checks : ∀ m ∈ db.modelCalls, m.requestId = a.config.requestId → Checkpoint host a.config db m) :
    Rebuilds host a db stage (agentMove host world a db stage) := by
  have stays : ∀ id, Spares id db db := fun id m member _ => member
  cases stage with
  | entered => exact (enter_rebuilds keys).piped world
  | begun turn => exact (takeTurn_rebuilds keys).piped world
  | opened turn => exact (readSaved_rebuilds keys faithful).piped world
  | asking w => exact (ask_rebuilds keys (own w.session rfl) faithful checks).piped world
  | dispatching w raw => exact dispatch_rebuilds kept faithful
  | answered w answer => exact (recordResponse_rebuilds keys (own w.session rfl) faithful).piped world
  | acting w seen calls =>
    cases calls with
    | nil => exact .of_spares stays (faithful.imp_right Busy.nextTool) nextRound_agrees
    | cons call rest => exact (startUse_rebuilds keys (own w.session rfl) faithful).piped world
  | intended w seen use rest => exact (leaseUse_rebuilds keys faithful).piped world
  | leased w seen use rest token =>
    show Rebuilds host a db _ (executeUse w seen use rest token world.document db)
    unfold executeUse
    dsimp only
    split
    · exact .of_spares stays (.inr trivial) nofun
    · exact .of_spares stays faithful nofun
  | executed w seen use rest token result =>
    exact (finishUse_rebuilds keys (own w.session rfl) faithful).piped world
  | committing w content => exact (finishTurn_rebuilds keys).piped world
  | returned outcome => exact .of_spares stays (.inr trivial) agrees

end Requests

/-! ## Runs of other requests -/

section Others

variable {host : Host} {clk : Clock} {a : AgentCall} {db : Db} {id : Text}

theorem Spares.refl (id : Text) (db : Db) : Spares id db db := fun _ member _ => member

theorem piped_spares {world : World} {m : AgentMove} (spares : Spares id db m.db) :
    Spares id db (world.piped m db).db := by
  unfold World.piped
  cases world.broken with
  | none => exact spares
  | some ran =>
    cases ran with
    | true => exact spares
    | false => exact .refl id db

theorem checkpointed_db {w : Work} {raw : Text} : (checkpointed host a w raw db).db = db := by
  unfold checkpointed
  repeat' split
  all_goals rfl

theorem ask_spares (keys : JournalKeys db.toJournal) {w : Work} (other : w.session.requestId ≠ id) :
    Spares id db (ask host a w db).db := by
  unfold ask
  split
  · exact .refl id db
  split
  · exact .refl id db
  dsimp only
  split
  · exact .refl id db
  rename_i units counting _
  have spares : ∀ {result db'}, backendCall "model_request" (sessionArguments w.session
      [("call_id", .str (modelCallId w.round)), ("payload_json", .str (payload a.config w).dumps),
        ("units", .int units), ("counting", .str counting)]) (int64 w.session.generation && int64 units)
      (recordModelRequest host w.session.requestId w.session.generation (modelCallId w.round)
        (payload a.config w).dumps units counting) db = (result, db') → Spares id db db' :=
    fun run => backendCall_spares host id plainClock (.recordModelRequest w.session.requestId
      w.session.generation (modelCallId w.round) (payload a.config w).dumps units counting)
      (fun _ => .done) rfl keys other run
  split
  · rename_i run
    exact spares run
  · rename_i run
    rw [checkpointed_db]
    exact spares run

theorem enter_spares (keys : JournalKeys db.toJournal) : Spares id db (enter host clk a db).db := by
  unfold enter
  split
  · rename_i run
    exact backendCall_spares host id clk (.begin (a.request host) []) .turn rfl keys trivial run
  · rename_i run
    have spares := backendCall_spares host id clk (.begin (a.request host) []) .turn rfl keys trivial run
    split
    · exact spares
    split
    · exact spares
    split <;> exact spares

theorem startUse_spares (keys : JournalKeys db.toJournal) {w : Work} {seen : List Text} {call : Json}
    {rest : List Json} : Spares id db (startUse host a w seen call rest db).db := by
  unfold startUse
  split
  · exact .refl id db
  rename_i use _
  dsimp only
  split
  · rename_i run
    exact backendCall_spares host id plainClock (.startTool w.session.requestId w.session.generation
      (w.journalId use) use.name use.args) .tool rfl keys trivial run
  · rename_i run
    have spares := backendCall_spares host id plainClock (.startTool w.session.requestId
      w.session.generation (w.journalId use) use.name use.args) .tool rfl keys trivial run
    split
    · exact spares
    split <;> exact spares

/-- A run writes no model request of another turn. -/
theorem agentMove_spares {world : World} {stage : AgentStage} (keys : JournalKeys db.toJournal)
    (other : a.config.requestId ≠ id)
    (own : ∀ t, stage.session = some t → t.requestId = a.config.requestId) :
    Spares id db (agentMove host world a db stage).db := by
  cases stage with
  | entered => exact piped_spares (enter_spares keys)
  | begun turn =>
    refine piped_spares ?_
    unfold takeTurn
    split <;>
    · rename_i run
      exact backendCall_spares host id world.clk (.recover a.config.requestId turn.generation)
        .turn rfl keys trivial run
  | opened turn =>
    refine piped_spares ?_
    unfold readSaved
    split <;>
    · rename_i run
      exact backendCall_spares host id plainClock (.modelCalls a.config.requestId) .models rfl
        keys trivial run
  | asking w =>
    have apart : w.session.requestId ≠ id := by
      rw [own w.session rfl]
      exact other
    exact piped_spares (ask_spares keys apart)
  | dispatching w raw =>
    show Spares id db (dispatch host a w world.provider db).db
    unfold dispatch
    dsimp only
    repeat' split
    all_goals exact .refl id db
  | answered w answer =>
    refine piped_spares ?_
    unfold recordResponse
    split
    · exact .refl id db
    rename_i j raw _
    split <;>
    · rename_i run
      exact backendCall_spares host id world.clk (.recordModelResponse w.session.requestId
        w.session.generation (modelCallId w.round) raw) (fun _ => .done) rfl keys trivial run
  | acting w seen calls =>
    cases calls with
    | nil => exact .refl id db
    | cons call rest => exact piped_spares (startUse_spares keys)
  | intended w seen use rest =>
    refine piped_spares ?_
    unfold leaseUse
    dsimp only
    split <;>
    · rename_i run
      exact backendCall_spares host id world.clk (.actionEligible w.session.requestId w.session.generation
        (w.journalId use) 5000) .lease rfl keys trivial run
  | leased w seen use rest token =>
    show Spares id db (executeUse w seen use rest token world.document db).db
    unfold executeUse
    dsimp only
    split <;> exact .refl id db
  | executed w seen use rest token result =>
    refine piped_spares ?_
    unfold finishUse
    dsimp only
    split <;>
    · rename_i run
      exact backendCall_spares host id world.clk (.finishTool w.session.requestId w.session.generation
        (w.journalId use) result [token]) .tool rfl keys trivial run
  | committing w content =>
    refine piped_spares ?_
    unfold finishTurn
    dsimp only
    split <;>
    · rename_i run
      exact backendCall_spares host id world.clk (.commit w.session.requestId w.session.generation
        { text := content, snapshot := some w.session.package.snapshot }) .turn rfl keys trivial run
  | returned outcome => exact .refl id db

end Others

/-! ## The invariant -/

/-- Every checkpoint of the turn and everything its runs have in hand is what the journal gives. -/
structure RebuildInvariant (host : Host) (c : AgentConfig) (s : Agents) : Prop where
  same : ∀ (k : Nat) a stage, s.runs[k]? = some (a, stage) → a.config.requestId = c.requestId →
    a.config = c
  calls : ∀ m ∈ s.db.modelCalls, m.requestId = c.requestId → Checkpoint host c s.db m
  stages : ∀ (k : Nat) a stage, s.runs[k]? = some (a, stage) → a.config.requestId = c.requestId →
    Retired c.requestId s.db ∨ Faithful host c.requestId s.db stage
  agrees : ∀ (k : Nat) a stage, s.runs[k]? = some (a, stage) → a.config.requestId = c.requestId →
    stage ≠ .returned (.error .checkpointDiffers)

/-- The event keeps to one configuration of the request and to the agent's own transport, and nobody
    else writes model requests of the turn. -/
def AgentEvent.Alone (c : AgentConfig) : AgentEvent → Prop
  | .transaction t => Step.sparesRequests c.requestId t
  | .enter a => a.config.requestId = c.requestId → a.config = c
  | .step _ world => ∀ j, world.provider ≠ some (.value j)

section Invariant

variable {host : Host} {c : AgentConfig} {s : Agents}

theorem RebuildInvariant.empty : RebuildInvariant host c {} := by
  refine ⟨?_, fun m member => ?_, ?_, ?_⟩
  · simp
  · cases member
  · simp
  · simp

/-- A model request that is there is of a turn that is not retired. -/
theorem not_retired_of_call {db : Db} {m : ModelCallRow} (keys : JournalKeys db.toJournal)
    (member : m ∈ db.modelCalls) : ¬ Retired m.requestId db := by
  obtain ⟨t, live, same⟩ := keys.callTurn m member
  have found := turn?_of_mem keys live
  rw [same] at found
  exact not_retired keys found

theorem Checkpoint.later {db db' : Db} {m : ModelCallRow} (h : Checkpoint host c db m)
    (writes : Writes host db db') (keys : JournalKeys db.toJournal) (member : m ∈ db'.modelCalls)
    (own : m.requestId = c.requestId) : Checkpoint host c db' m := by
  have alive := not_retired_of_call (writes.keys keys) member
  rw [own] at alive
  have more : Extends c.requestId db db' := (writes.extends _ keys).resolve_left alive
  obtain ⟨w, n, callId, round, messages, sent⟩ := h
  exact ⟨w, n, callId, round, rebuilt_extends more messages, sent⟩

/-- What a run has in hand stays what the journal has. -/
theorem RebuildInvariant.kept {db' : Db} (h : RebuildInvariant host c s) (writes : Writes host s.db db')
    (keys : JournalKeys s.db.toJournal) {k : Nat} {a : AgentCall} {stage : AgentStage}
    (here : s.runs[k]? = some (a, stage)) (own : a.config.requestId = c.requestId) :
    Retired c.requestId db' ∨ Faithful host c.requestId db' stage := by
  rcases writes.extends c.requestId keys with gone | more
  · exact .inl gone
  · exact (h.stages k a stage here own).imp (writes.retired keys) fun faithful => faithful.extends more

theorem RebuildInvariant.transaction {db' : Db} (h : RebuildInvariant host c s)
    (keys : JournalKeys s.db.toJournal) (writes : Writes host s.db db')
    (spares : Spares c.requestId s.db db') : RebuildInvariant host c { s with db := db' } where
  same := h.same
  calls m member own := (h.calls m (spares m member own) own).later writes keys member own
  stages _ _ _ here own := h.kept writes keys here own
  agrees := h.agrees

theorem RebuildInvariant.enter (a : AgentCall) (h : RebuildInvariant host c s)
    (one : a.config.requestId = c.requestId → a.config = c) :
    RebuildInvariant host c { s with runs := s.runs ++ [(a, .entered)] } := by
  refine ⟨?_, h.calls, ?_, ?_⟩
  · intro k b stage here own
    rcases entered_run here with old | new
    · exact h.same k b stage old own
    · cases new
      exact one own
  · intro k b stage here own
    rcases entered_run here with old | new
    · exact h.stages k b stage old own
    · cases new
      exact .inr trivial
  · intro k b stage here own
    rcases entered_run here with old | new
    · exact h.agrees k b stage old own
    · cases new
      exact nofun

theorem RebuildInvariant.move {k : Nat} {a : AgentCall} {stage : AgentStage} {world : World}
    (h : RebuildInvariant host c s) (d : DispatchInvariant s) (here : s.runs[k]? = some (a, stage))
    (kept : ∀ j, world.provider ≠ some (.value j)) :
    RebuildInvariant host c (s.after k a (agentMove host world a s.db stage)) := by
  have own : ∀ t, stage.session = some t → t.requestId = a.config.requestId :=
    fun t has => d.own k a stage t here has
  have writes : Writes host s.db (agentMove host world a s.db stage).db :=
    (agentMove_spec world stage).writes
  have later : ∀ {m}, m ∈ s.db.modelCalls → m ∈ (agentMove host world a s.db stage).db.modelCalls →
      m.requestId = c.requestId → Checkpoint host c (agentMove host world a s.db stage).db m :=
    fun old member named => (h.calls _ old named).later writes d.keys member named
  by_cases mine : a.config.requestId = c.requestId
  · obtain rfl : a.config = c := h.same k a stage here mine
    have step : Rebuilds host a s.db stage (agentMove host world a s.db stage) :=
      agentMove_rebuilds d.keys kept own (h.agrees k a stage here rfl) (h.stages k a stage here rfl)
        h.calls
    refine ⟨?_, ?_, ?_, ?_⟩
    · intro j b other there
      rcases after_run there with ⟨_, eq⟩ | ⟨_, old⟩
      · cases eq
        exact fun _ => rfl
      · exact h.same j b other old
    · intro m member named
      rcases step.calls m member with old | ⟨_, w, rfl, callId, sent⟩
      · exact later old member named
      · -- the request of this run is what the journal gives
        have alive := not_retired_of_call (writes.keys d.keys) member
        rw [named] at alive
        have ready : Ready host a.config.requestId s.db w :=
          (h.stages k a _ here rfl).resolve_left fun gone => alive (writes.retired d.keys gone)
        have more := (writes.extends _ d.keys).resolve_left alive
        obtain ⟨n, round, messages⟩ := ready.messages
        exact ⟨w, n, callId, round, rebuilt_extends more messages, sent⟩
    · intro j b other there named
      rcases after_run there with ⟨_, eq⟩ | ⟨_, old⟩
      · cases eq
        exact step.stage
      · exact h.kept writes d.keys old named
    · intro j b other there named
      rcases after_run there with ⟨_, eq⟩ | ⟨_, old⟩
      · cases eq
        exact step.agrees
      · exact h.agrees j b other old named
  · have spares : Spares c.requestId s.db (agentMove host world a s.db stage).db :=
      agentMove_spares d.keys mine own
    refine ⟨?_, ?_, ?_, ?_⟩
    · intro j b other there named
      rcases after_run there with ⟨_, eq⟩ | ⟨_, old⟩
      · cases eq
        exact absurd named mine
      · exact h.same j b other old named
    · exact fun m member named => later (spares m member named) member named
    · intro j b other there named
      rcases after_run there with ⟨_, eq⟩ | ⟨_, old⟩
      · cases eq
        exact absurd named mine
      · exact h.kept writes d.keys old named
    · intro j b other there named
      rcases after_run there with ⟨_, eq⟩ | ⟨_, old⟩
      · cases eq
        exact absurd named mine
      · exact h.agrees j b other old named

theorem RebuildInvariant.next {event : AgentEvent} (h : RebuildInvariant host c s)
    (d : DispatchInvariant s) (alone : event.Alone c) : RebuildInvariant host c (s.next host event) := by
  cases event with
  | transaction step =>
    exact h.transaction d.keys (.inr ⟨step, rfl⟩) (Step.spares d.keys alone)
  | enter a => exact h.enter a alone
  | step k world =>
    cases here : s.runs[k]? with
    | none =>
      simp only [Agents.next, here]
      exact h
    | some call =>
      obtain ⟨a, stage⟩ := call
      simp only [Agents.next, here]
      exact h.move d here alone

end Invariant

/-- **A resumed run rebuilds its checkpoints.** In every run in which a request has one configuration,
    the transport hands its responses on as they came and nobody else writes model requests of the turn,
    every checkpoint of a model call is, byte for byte, the request of every run that comes to this call,
    also after any number of crashes and takeovers; so the reconstruction check never fails. -/
theorem rebuild_exact (host : Host) (c : AgentConfig) (events : List AgentEvent)
    (alone : ∀ event ∈ events, event.Alone c) :
    (∀ (k : Nat) a w, (runAgents host {} events).runs[k]? = some (a, .asking w) →
      a.config.requestId = c.requestId → ∀ m ∈ (runAgents host {} events).db.modelCalls,
        m.requestId = c.requestId → m.callId = modelCallId w.round →
          m.payloadJson = (payload a.config w).dumps) ∧
    ∀ (k : Nat) a, a.config.requestId = c.requestId →
      (runAgents host {} events).runs[k]? ≠ some (a, .returned (.error .checkpointDiffers)) := by
  have every : ∀ s event, event.Alone c → DispatchInvariant s ∧ RebuildInvariant host c s →
      DispatchInvariant (s.next host event) ∧ RebuildInvariant host c (s.next host event) :=
    fun _ event alone both => ⟨both.1.next event, both.2.next both.1 alone⟩
  have inv : DispatchInvariant (runAgents host {} events) ∧
      RebuildInvariant host c (runAgents host {} events) :=
    runAgents_inv (P := fun s => DispatchInvariant s ∧ RebuildInvariant host c s) every alone
      ⟨.empty, .empty⟩
  refine ⟨?_, fun k a own here => inv.2.agrees k a _ here own rfl⟩
  intro k a w here own m member named callId
  obtain ⟨v, n, vcall, round, messages, sent⟩ := inv.2.calls m member named
  have alive := not_retired_of_call inv.1.keys member
  rw [named] at alive
  have ready : Ready host c.requestId (runAgents host {} events).db w :=
    (inv.2.stages k a _ here own).resolve_left alive
  obtain ⟨j, mine, rebuilt_⟩ := ready.messages
  have rounds : v.round = w.round := modelCallId_inj (vcall.symm.trans callId)
  have equal_ : n = j := by omega
  rw [equal_, rebuilt_] at messages
  rw [sent, inv.2.same k a _ here own, payload_messages (Option.some.inj messages).symm]

/-- A question about the first task. -/
def lookingUp : AgentCall where
  config :=
    { endpoint := Text.lit "http://m"
      model := Text.lit "m"
      requestId := Text.lit "r"
      workspace := Text.lit "/w" }
  taskId := 1
  prompt := Text.lit "q"

/-- A run dispatches its first call and stops; another one resumes. -/
def takenOver : List AgentEvent :=
  (plainTurn.take 1).map .transaction ++ .enter lookingUp :: .enter { lookingUp with resume := true } ::
    ([0, 0, 0, 0, 1, 1, 1, 1] : List Nat).map fun k => .step k { clk := plainClock }

/-- Where one run takes over from another. -/
theorem rebuild_exact_takenOver :
    (∀ (k : Nat) a w, (runAgents plainHost {} takenOver).runs[k]? = some (a, .asking w) →
      a.config.requestId = lookingUp.config.requestId →
        ∀ m ∈ (runAgents plainHost {} takenOver).db.modelCalls,
          m.requestId = lookingUp.config.requestId → m.callId = modelCallId w.round →
            m.payloadJson = (payload a.config w).dumps) ∧
    ∀ (k : Nat) a, a.config.requestId = lookingUp.config.requestId →
      (runAgents plainHost {} takenOver).runs[k]? ≠ some (a, .returned (.error .checkpointDiffers)) := by
  refine rebuild_exact plainHost lookingUp.config takenOver fun event member => ?_
  simp only [takenOver, plainTurn, plainCalls, List.map_cons, List.take_succ_cons, List.take_zero,
    List.map_nil, List.cons_append, List.nil_append, List.mem_cons, List.not_mem_nil, or_false] at member
  rcases member with rfl | rfl | rfl | rfl | rfl | rfl | rfl | rfl | rfl | rfl | rfl
  · intro op same
    cases same
    trivial
  · exact fun _ => rfl
  · exact fun _ => rfl
  all_goals exact nofun

end Agent

end Cmpath
