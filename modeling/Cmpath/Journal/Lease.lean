import Cmpath.Engine.Session
import Cmpath.Journal.Grounded
import Cmpath.Lib.Canon

/-!
# Action leases

`ActionEligible` hands out a token for a started call of a pending turn whose scope is fresh, and
`FinishTool` takes it back while the turn has the same generation, the call is still started and
the clock stands before the expiry. The token is a digest under a primary key: the same call cannot
get two leases that expire at the same millisecond.
-/

namespace Cmpath
open Lib Lib.Txn

/-- The lifetime of a lease that is asked for with `ttlMs` (`harness.go:386-388`). -/
def lifetime (ttlMs : Int) : Int := if ttlMs = 0 then 5000 else ttlMs

/-- The row `ActionEligible` adds for a call (`harness.go:404-413`). -/
def newLease (host : Host) (clk : Clock) (id : Text) (generation : Int) (callId : Text)
    (ttlMs : Int) (call : ToolRow) : LeaseRow :=
  let hash := callHash host call.name call.argsJson
  let expires := clk.millis + lifetime ttlMs
  ⟨fingerprint host (.arr [.str id, .int generation, .str callId, .str hash, .int expires]),
    id, generation, callId, hash, expires, clk.now 0⟩

/-- The lease a row stands for. -/
def LeaseRow.lease (l : LeaseRow) : ActionLease :=
  ⟨l.token, l.requestId, l.callId, l.generation, l.argsHash, l.expiresAt⟩

/-- The turn is pending at this generation. -/
def Owned (id : Text) (generation : Int) (db : Db) : Prop :=
  ∃ t, db.turn? id = some t ∧ t.status = .pending ∧ t.generation = generation

/-- The intent of the call is started. -/
def Intended (id callId : Text) (db : Db) : Prop :=
  ∃ c, db.tool? id callId = some c ∧ c.status = .started

/-- A turn bound to its scope has a basis, and every epoch of it is the current one. -/
def FreshBasis (id : Text) (db : Db) : Prop :=
  ∀ t, db.turn? id = some t → (Request.ofJson t.requestJson).scopeBound = true →
    (∃ b ∈ db.turnBasis, b.requestId = id) ∧
      ∀ b ∈ db.turnBasis, b.requestId = id → db.epoch? b.taskId = some b.epoch

/-- The call may go ahead. -/
structure CallEligible (id : Text) (generation : Int) (callId : Text) (db : Db) : Prop where
  owned : Owned id generation db
  intended : Intended id callId db
  fresh : FreshBasis id db

/-- The result is the tool's: the call was started and is completed with it, and its evidence is a
    new message of the turn's task. -/
structure Recorded (id callId : Text) (raw : Json) (db db' : Db) : Prop where
  call : ∃ c e, db.tool? id callId = some c ∧ c.status = .started ∧
    db'.tool? id callId = some (c.complete raw e) ∧
    ∃ t m, db.turn? id = some t ∧ m ∈ db'.messages ∧ m.id = e ∧ m.taskId = t.taskId ∧
      m.role = .tool ∧ m.content = raw.marshal

/-- `FinishTool` with this token records the result. -/
def Records (host : Host) (clk : Clock) (id : Text) (generation : Int) (callId : Text)
    (result : Json) (token : Text) (db : Db) : Prop :=
  ∃ out db', finishTool host clk id generation callId result [token] db = .ok (out, db') ∧
    Recorded id callId (encode result.canon) db db' ∧ out.result = encode result.canon

section Lease

variable {host : Host} {clk : Clock} {id callId : Text} {generation ttlMs : Int} {db db' : Db}

theorem validateBasis_fresh {u : Unit} : validateBasis id db = .ok u ↔
    (∃ t, db.turn? id = some t) ∧ FreshBasis id db := by
  rw [validateBasis_ok]
  constructor
  · rintro ⟨t, found, fresh⟩
    refine ⟨⟨t, found⟩, fun u live => ?_⟩
    rw [found] at live
    cases live
    exact fresh
  · rintro ⟨⟨t, found⟩, fresh⟩
    exact ⟨t, found, fresh t found⟩

/-- A token is a digest. -/
theorem newLease_token {call : ToolRow} :
    (newLease host clk id generation callId ttlMs call).token ≠ [] := by
  intro none_
  have size := (host.sha256 (Json.marshal (.arr [.str id, .int generation, .str callId,
    .str (callHash host call.name call.argsJson), .int (clk.millis + lifetime ttlMs)]))).length_eq
  rw [show Digest.text _ = [] from none_] at size
  cases size

/-- **What `ActionEligible` does.** It succeeds for an eligible call whose token is not taken, and
    adds the lease. -/
theorem actionEligible_iff (grounded : db.Grounded)
    (valid : 1 ≤ lifetime ttlMs ∧ lifetime ttlMs ≤ 600000) {out : ActionLease} :
    actionEligible host clk id generation callId ttlMs db = .ok (out, db') ↔
      ∃ call, db.tool? id callId = some call ∧ CallEligible id generation callId db ∧
        (∀ l ∈ db.actionLeases,
          l.token ≠ (newLease host clk id generation callId ttlMs call).token) ∧
        out = (newLease host clk id generation callId ttlMs call).lease ∧
        db' = { db with
          actionLeases := db.actionLeases ++
            [newLease host clk id generation callId ttlMs call] } := by
  have ttl : (1 ≤ (if ttlMs = 0 then 5000 else ttlMs) &&
      (if ttlMs = 0 then 5000 else ttlMs) ≤ 600000 : Bool) = true := by
    simpa [lifetime] using valid
  simp only [actionEligible, insertLease, requireTurn, bind_ok, ensure_ok, read_ok, require_ok,
    modify_ok, pure_ok, pending_ok, toolRow_ok, validateBasis_fresh]
  constructor
  · rintro ⟨_, _, ⟨_, rfl⟩, _, _, ⟨_, rfl⟩, t, _, ⟨⟨live, status, fenced⟩, rfl⟩, call, _,
      ⟨known, rfl⟩, _, _, ⟨started, rfl⟩, _, _, ⟨⟨_, fresh⟩, rfl⟩, _, _, ⟨_, _, ⟨_, rfl⟩, _, _,
      ⟨free, rfl⟩, rfl⟩, rfl, rfl⟩
    refine ⟨call, known, ⟨⟨t, live, status, fenced⟩, ⟨call, known, by simpa using started⟩, fresh⟩,
      ?_, rfl, rfl⟩
    simpa [newLease, lifetime] using free
  · rintro ⟨call, known, ⟨⟨t, live, status, fenced⟩, ⟨c, same, started⟩, fresh⟩, free, rfl, rfl⟩
    rw [known] at same
    cases same
    obtain ⟨text, size⟩ := grounded.names call (List.mem_of_find?_eq_some known)
    rw [(tool?_key known).2] at text size
    refine ⟨(), db, ⟨by simp [text, size], rfl⟩, (), db, ⟨ttl, rfl⟩, t, db,
      ⟨⟨live, status, fenced⟩, rfl⟩, call, db, ⟨known, rfl⟩, (), db, ⟨by simp [started], rfl⟩, (), db,
      ⟨⟨⟨t, live⟩, fresh⟩, rfl⟩, (), _, ⟨(), db, ⟨?_, rfl⟩, (), db, ⟨?_, rfl⟩, rfl⟩, rfl, rfl⟩
    · rw [live]
      rfl
    · simpa [newLease, lifetime] using free

end Lease

/-! ## Recording a result -/

section Record

variable {host : Host} {clk : Clock} {id callId : Text} {generation : Int} {db db' : Db}

theorem append_of {now : Stamp} {input : Append} {role : Role}
    (known : Role.ofText? input.role = some role) (text : textOK input.content = true)
    (task : (db.task? input.taskId).isSome) :
    ∃ out, append now input db = .ok (out, db.insertMessage ⟨db.sequence.messages + 1, input.taskId,
      role, input.content, encode (object (input.source.getD (.obj []))), now⟩) ∧
        out.id = db.sequence.messages + 1 := by
  unfold append
  rw [known]
  simp only [insertMessage, requireTask, bind_ok, ensure_ok, read_ok, require_ok, modify_ok, pure_ok]
  exact ⟨_, ⟨(), db, ⟨text, rfl⟩, _, _, ⟨(), db, ⟨task, rfl⟩, _, db, ⟨rfl, rfl⟩, (), _, rfl, rfl, rfl⟩,
    rfl, rfl⟩, rfl⟩

theorem advanceBasis_of {key e before : Int} (clock : db.epoch? key = some e) :
    ∃ db', advanceBasis id key before db = .ok ((), db') ∧ db'.toolCalls = db.toolCalls ∧
      db'.scopeEpochs = db.scopeEpochs := by
  unfold advanceBasis
  simp only [bind_ok, read_ok, modify_ok, scopeEpoch_ok]
  exact ⟨_, ⟨e, db, ⟨clock, rfl⟩, rfl⟩, rfl, rfl⟩

theorem tool?_complete {raw : Json} {e : Int} {call : ToolRow} {d : Db}
    (known : d.tool? id callId = some call) :
    ({ d with
      toolCalls := Table.update (fun c => c.requestId == id && c.callId == callId)
        (ToolRow.complete raw e) d.toolCalls } : Db).tool? id callId = some (call.complete raw e) := by
  have pairs : ∀ c : ToolRow, (c.requestId == id && c.callId == callId) =
      ((c.requestId, c.callId) == (id, callId)) := fun _ => rfl
  have kept : ∀ c : ToolRow, (fun c : ToolRow => (c.requestId, c.callId)) (c.complete raw e) =
      (fun c : ToolRow => (c.requestId, c.callId)) c := fun _ => rfl
  unfold Db.tool? at known ⊢
  simp only [pairs] at known ⊢
  rw [Table.find?_update kept, known]
  rfl

/-- The recording of a call of a turn goes through. -/
theorem recordResult_of (grounded : db.Grounded) {t : TurnRow} {call : ToolRow} {raw : Json}
    (live : t ∈ db.turns) (known : db.tool? id callId = some call)
    (text : textOK raw.marshal = true) :
    ∃ db', recordResult clk id callId t.taskId call raw db =
      .ok ((call.complete raw (db.sequence.messages + 1)).call, db') := by
  have task := grounded.turnTask t live
  obtain ⟨row, found⟩ := Option.isSome_iff_exists.mp task
  have clock : (db.epoch? t.taskId).isSome := by
    rw [← task?_id found]
    exact grounded.clocked.task row (List.mem_of_find?_eq_some found)
  obtain ⟨before, here⟩ := Option.isSome_iff_exists.mp clock
  obtain ⟨whole, there⟩ := Option.isSome_iff_exists.mp grounded.clocked.whole
  obtain ⟨ev, appended, evId⟩ := @append_of db (clk.now 0) ⟨t.taskId, Text.lit "tool", raw.marshal,
    some (toolSource id callId call.name)⟩ .tool rfl text task
  generalize fed : db.insertMessage _ = mid at appended
  have clocks : ∀ {key e : Int}, db.epoch? key = some e → ∃ e', mid.epoch? key = some e' := by
    intro key e same
    rw [← fed]
    exact ⟨_, (touchAll_log [_] _).2 same⟩
  have calls : mid.toolCalls = db.toolCalls := by rw [← fed]; rfl
  obtain ⟨_, here'⟩ := clocks here
  obtain ⟨_, there'⟩ := clocks there
  obtain ⟨first, moved, calls₁, clocks₁⟩ := @advanceBasis_of id mid t.taskId _ before here'
  have there₁ : first.epoch? 0 = mid.epoch? 0 := by unfold Db.epoch?; rw [clocks₁]
  obtain ⟨second, moved₂, calls₂, _⟩ := @advanceBasis_of id first 0 _ whole (there₁.trans there')
  have known' : second.tool? id callId = some call := by
    unfold Db.tool?
    rw [calls₂, calls₁, calls]
    exact known
  have completed := @tool?_complete id callId raw ev.id call second known'
  refine ⟨{ second with
    toolCalls := Table.update (fun c => c.requestId == id && c.callId == callId)
      (ToolRow.complete raw ev.id) second.toolCalls }, ?_⟩
  unfold recordResult
  refine (bind_of_ok (read_ok.mpr ⟨scopeEpoch_ok.mpr here, rfl⟩)).trans ?_
  refine (bind_of_ok (read_ok.mpr ⟨scopeEpoch_ok.mpr there, rfl⟩)).trans ?_
  refine (bind_of_ok appended).trans ((bind_of_ok moved).trans ((bind_of_ok moved₂).trans ?_))
  refine (bind_of_ok (a := ()) (modify_ok.mpr rfl)).trans ?_
  refine (bind_of_ok (read_ok.mpr ⟨toolRow_ok.mpr completed, rfl⟩)).trans ?_
  rw [evId]
  rfl

/-- What a recording leaves is the tool's result. -/
theorem Finished.recorded {raw : Json} {t : TurnRow} {call : ToolRow}
    (h : Finished clk id callId raw t call db db') (live : db.turn? id = some t)
    (known : db.tool? id callId = some call) (started : call.status = .started) :
    Recorded id callId raw db db' := by
  obtain ⟨_, _, _, _, _, _, _, _, rfl⟩ := h.taskEpoch
  have same : (db.insertMessage (resultMessage db clk t.taskId call raw)).tool? id callId =
      some call := known
  refine ⟨call, db.sequence.messages + 1, known, started, tool?_complete same, t,
    resultMessage db clk t.taskId call raw, live, ?_, rfl, rfl, rfl, rfl⟩
  exact List.mem_append_right _ (List.mem_singleton_self _)

theorem textOK_result {result : Json} (numbers : result.Numbers) :
    textOK (encode result.canon).marshal = true := by
  unfold textOK encode
  rw [Json.scrub_canon, Json.not_blank_marshal (Json.numbers_canon numbers), Json.valid_marshal]
  rfl

/-- **What `FinishTool` with a token does.** It records the result of a started call of a turn it
    owns whose lease it finds valid. -/
theorem records_iff (grounded : db.Grounded) {result : Json} (numbers : result.Numbers)
    {token : Text} (real : token ≠ []) :
    Records host clk id generation callId result token db ↔ Owned id generation db ∧
      ∃ call, db.tool? id callId = some call ∧ call.status = .started ∧
        validateActionLease host clk id generation callId call token db = .ok () := by
  constructor
  · rintro ⟨out, db', run, ⟨call, e, known, started, _⟩, _⟩
    simp only [finishTool, bind_ok, read_ok, pending_ok, toolRow_ok] at run
    obtain ⟨t, _, ⟨owned, rfl⟩, c, _, ⟨same, rfl⟩, run⟩ := run
    rw [known] at same
    cases same
    rw [if_neg (by rw [started]; decide)] at run
    obtain ⟨_, _, lease, _⟩ := bind_ok.mp run
    refine ⟨⟨t, owned⟩, call, known, started, ?_⟩
    have valid := (read_ok.mp lease).1
    rw [checkLease, if_neg real] at valid
    exact valid
  · rintro ⟨⟨t, live, status, fenced⟩, call, known, started, valid⟩
    obtain ⟨db', run⟩ := @recordResult_of clk id callId db grounded t call (encode result.canon)
      (turn?_mem live) known (textOK_result numbers)
    have lease : checkLease host clk id generation callId call [token] db = .ok () := by
      rw [checkLease, if_neg real]
      exact valid
    have finish : finishTool host clk id generation callId result [token] db =
        .ok ((call.complete (encode result.canon) (db.sequence.messages + 1)).call, db') := by
      unfold finishTool
      refine (bind_of_ok (read_ok.mpr ⟨pending_ok.mpr ⟨live, status, fenced⟩, rfl⟩)).trans ?_
      refine (bind_of_ok (read_ok.mpr ⟨toolRow_ok.mpr known, rfl⟩)).trans ?_
      rw [if_neg (by rw [started]; decide)]
      exact (bind_of_ok (read_ok.mpr ⟨lease, rfl⟩)).trans run
    exact ⟨_, db', finish, (recordResult_ok known run).recorded live known started, rfl⟩

end Record

/-! ## A lease over a run -/

/-- The lease is in the journal with the intent it was given for, or its turn is retired. -/
def Issued (l : LeaseRow) (name : Text) (args : Json) (db : Db) : Prop :=
  (l ∈ db.actionLeases ∧ ∃ c ∈ db.toolCalls, c.requestId = l.requestId ∧ c.callId = l.callId ∧
    c.name = name ∧ c.argsJson = args) ∨
    ∃ r ∈ db.retiredTurns, r.requestId = l.requestId

section Issued

variable {host : Host} {kind : Kind} {db db' : Db} {l : LeaseRow} {name : Text} {args : Json}

/-- A lease stays until its turn is retired. -/
theorem Change.lease_row (c : Change host kind db db') (keys : JournalKeys db.toJournal)
    (member : l ∈ db.actionLeases) :
    l ∈ db'.actionLeases ∨ ∃ t ∈ db.turns, t.requestId = l.requestId ∧ Removed kind t db' := by
  cases c with
  | additive evolves =>
    rw [congrArg Journal.actionLeases evolves.journal]
    exact .inl member
  | begun clk r c row payload basis input custom normal begun =>
    rw [congrArg Journal.actionLeases begun.journal]
    exact .inl member
  | committed clk id generation reply s row facts snapshot edges done =>
    rw [congrArg Journal.actionLeases done.journal]
    exact .inl member
  | toolFinished clk id callId raw s row found pending known started finished =>
    obtain ⟨_, _, journal⟩ := finished.journal
    rw [congrArg Journal.actionLeases journal]
    exact .inl member
  | leased lease t text live pending token hash => exact .inl (List.mem_append_left _ member)
  | retired retiredAt cutoff =>
    obtain ⟨t, live, same⟩ := keys.leaseTurn l member
    rcases retireAll_turn keys retiredAt cutoff live with ⟨stays, _⟩ | removed
    · rw [congrArg Journal.actionLeases (retireAll_journal keys retiredAt cutoff)]
      refine .inl (Table.mem_delete.mpr ⟨member, ?_⟩)
      rw [← same]
      exact stays
    · exact .inr ⟨t, live, same, removed⟩
  | _ => exact .inl member

theorem Step.issued (step : Step) (keys : JournalKeys db.toJournal) (h : Issued l name args db) :
    Issued l name args (step.next host db) := by
  rcases step.change host db with change | evolves
  · rcases h with ⟨lease, c, member, intent⟩ | ⟨r, member, own⟩
    · rcases change.lease_row keys lease with lease' | ⟨t, _, own, removed⟩
      · rcases change.tool_row keys member with ⟨d, later, same⟩ | ⟨t, _, own, removed⟩
        · refine .inl ⟨lease', d, later, ?_⟩
          rcases same with rfl | ⟨_, raw, e, rfl⟩
          · exact intent
          · exact intent
        · obtain ⟨_, tomb⟩ := removed.tombstone
          exact .inr ⟨_, tomb, own.trans intent.1⟩
      · obtain ⟨_, tomb⟩ := removed.tombstone
        exact .inr ⟨_, tomb, own⟩
    · exact .inr ⟨r, change.retired_step keys member, own⟩
  · unfold Issued
    rw [evolves.journal]
    exact h

theorem runSteps_issued (steps : List Step) (grounded : db.Grounded) (h : Issued l name args db) :
    (runSteps host db steps).Grounded ∧ Issued l name args (runSteps host db steps) := by
  have every : ∀ (d : Db) (step : Step), True → (d.Grounded ∧ Issued l name args d) →
      (step.next host d).Grounded ∧ Issued l name args (step.next host d) :=
    fun _ step _ ⟨grounded, issued⟩ => ⟨step.grounded grounded, step.issued grounded.keys issued⟩
  exact runSteps_inv (P := fun d => d.Grounded ∧ Issued l name args d) every (fun _ _ => trivial)
    ⟨grounded, h⟩

theorem validateActionLease_iff {clk : Clock} {callId : Text} {generation : Int} {call : ToolRow}
    (grounded : db.Grounded) (member : l ∈ db.actionLeases) :
    validateActionLease host clk l.requestId generation callId call l.token db = .ok () ↔
      l.generation = generation ∧ l.callId = callId ∧ clk.millis < l.expiresAt ∧
        l.argsHash = callHash host call.name call.argsJson := by
  have found : db.actionLeases.find? (fun x => x.token == l.token && x.requestId == l.requestId) =
      some l := by
    cases hit : db.actionLeases.find?
        (fun x => x.token == l.token && x.requestId == l.requestId) with
    | none =>
      have miss := List.find?_eq_none.mp hit l member
      simp at miss
    | some x =>
      have own := List.find?_some hit
      simp only [Bool.and_eq_true, beq_iff_eq] at own
      rw [grounded.tokens.eq_of_mem (List.mem_of_find?_eq_some hit) member own.1]
  unfold validateActionLease
  rw [found]
  dsimp only
  by_cases bound : l.generation = generation ∧ l.callId = callId
  · obtain ⟨rfl, rfl⟩ := bound
    rw [if_neg (by simp)]
    by_cases expired : l.expiresAt ≤ clk.millis
    · rw [if_pos expired]
      simp only [problem, reduceCtorEq, false_iff, not_and]
      intro _ _ open_
      omega
    · rw [if_neg expired]
      by_cases hash : l.argsHash = callHash host call.name call.argsJson
      · rw [if_neg (by simpa using hash)]
        simp only [true_and, hash, and_true, true_iff]
        omega
      · rw [if_pos (by simpa using hash)]
        simp [problem, hash]
  · rw [if_pos (by simpa [imp_iff_not_or] using bound)]
    simp only [problem, reduceCtorEq, false_iff]
    rintro ⟨generation', callId', _⟩
    exact bound ⟨generation', callId'⟩

/-- A lease that was issued is good for its call while the turn has its generation, the call is
    started and the clock stands before the expiry, and good for nothing else in the turn. -/
theorem issued_records {clk : Clock} {callId : Text} {generation : Int} (grounded : db.Grounded)
    (issued : Issued l name args db) (hash : l.argsHash = callHash host name args)
    (real : l.token ≠ []) {result : Json} (numbers : result.Numbers) :
    Records host clk l.requestId generation callId result l.token db ↔
      (generation = l.generation ∧ callId = l.callId) ∧ Owned l.requestId l.generation db ∧
        Intended l.requestId l.callId db ∧ clk.millis < l.expiresAt := by
  rw [records_iff grounded numbers real]
  have here : ∀ {g}, Owned l.requestId g db → l ∈ db.actionLeases ∧ ∃ c ∈ db.toolCalls,
      c.requestId = l.requestId ∧ c.callId = l.callId ∧ c.name = name ∧ c.argsJson = args := by
    rintro g ⟨t, live, _⟩
    refine issued.resolve_right ?_
    rintro ⟨r, tomb, own⟩
    exact grounded.keys.apart t (turn?_mem live) r tomb (own.trans (turn?_id live).symm)
  constructor
  · rintro ⟨owned, call, known, started, valid⟩
    obtain ⟨member, _⟩ := here owned
    obtain ⟨rfl, rfl, open_, _⟩ := (validateActionLease_iff grounded member).mp valid
    exact ⟨⟨rfl, rfl⟩, owned, ⟨call, known, started⟩, open_⟩
  · rintro ⟨⟨rfl, rfl⟩, owned, ⟨call, known, started⟩, open_⟩
    obtain ⟨member, c, recorded, own, ownCall, named, given⟩ := here owned
    have same : c = call := grounded.keys.tool_eq known recorded (by simp [own, ownCall])
    refine ⟨owned, call, known, started, (validateActionLease_iff grounded member).mpr ?_⟩
    rw [← same, named, given]
    exact ⟨rfl, rfl, open_, hash⟩

end Issued

/-! ## The property -/

/-- What a call of `ActionEligible` ought to be, and the token it hands out ever after. -/
structure LeaseCorrect (host : Host) (clk : Clock) (id : Text) (generation : Int) (callId : Text)
    (ttlMs : Int) (db : Db) : Prop where
  accepts : (∃ out, actionEligible host clk id generation callId ttlMs db = .ok out) ↔
    CallEligible id generation callId db
  issues : ∀ lease db', actionEligible host clk id generation callId ttlMs db = .ok (lease, db') →
    ∃ call row, db.tool? id callId = some call ∧ row.lease = lease ∧
      db' = { db with actionLeases := db.actionLeases ++ [row] } ∧ row.requestId = id ∧
      row.generation = generation ∧ row.callId = callId ∧
      row.argsHash = callHash host call.name call.argsJson ∧
      row.expiresAt = clk.millis + lifetime ttlMs
  records : ∀ lease db', actionEligible host clk id generation callId ttlMs db = .ok (lease, db') →
    ∀ (after : List Step) (clk' : Clock) (generation' : Int) (callId' : Text) (result : Json),
      result.Numbers →
      (Records host clk' id generation' callId' result lease.token (runSteps host db' after) ↔
        (generation' = generation ∧ callId' = callId) ∧
          Owned id generation (runSteps host db' after) ∧
          Intended id callId (runSteps host db' after) ∧
          clk'.millis < clk.millis + lifetime ttlMs)

/-- No lease in the journal has the token this request would get. -/
def Unissued (host : Host) (clk : Clock) (id : Text) (generation : Int) (callId : Text)
    (ttlMs : Int) (db : Db) : Prop :=
  ∀ call, db.tool? id callId = some call → ∀ l ∈ db.actionLeases,
    l.token ≠ (newLease host clk id generation callId ttlMs call).token

/-- **Leases.** In every reachable database a request for a lease is what it ought to be unless the
    call is eligible and its token is issued already. -/
theorem lease_exact (host : Host) (before : List Step) (clk : Clock) (id : Text) (generation : Int)
    (callId : Text) {ttlMs : Int} (valid : 1 ≤ lifetime ttlMs ∧ lifetime ttlMs ≤ 600000) :
    LeaseCorrect host clk id generation callId ttlMs (runSteps host .empty before) ↔
      (CallEligible id generation callId (runSteps host .empty before) →
        Unissued host clk id generation callId ttlMs (runSteps host .empty before)) := by
  have grounded : (runSteps host .empty before).Grounded := Reachable.grounded ⟨before, rfl⟩
  generalize runSteps host .empty before = db at grounded ⊢
  constructor
  · intro correct eligible
    obtain ⟨⟨lease, db'⟩, run⟩ := correct.accepts.mpr eligible
    obtain ⟨call, known, _, free, _⟩ := (actionEligible_iff grounded valid).mp run
    intro c same
    rw [known] at same
    cases same
    exact free
  · intro free
    refine ⟨⟨?_, fun eligible => ?_⟩, ?_, ?_⟩
    · rintro ⟨⟨lease, db'⟩, run⟩
      obtain ⟨_, _, eligible, _⟩ := (actionEligible_iff grounded valid).mp run
      exact eligible
    · obtain ⟨call, known, _⟩ := eligible.intended
      exact ⟨_, (actionEligible_iff grounded valid).mpr
        ⟨call, known, eligible, free eligible call known, rfl, rfl⟩⟩
    · intro lease db' run
      obtain ⟨call, known, _, _, rfl, rfl⟩ := (actionEligible_iff grounded valid).mp run
      exact ⟨call, _, known, rfl, rfl, rfl, rfl, rfl, rfl, rfl⟩
    · intro lease db' run after clk' generation' callId' result numbers
      have grounded' : db'.Grounded := by
        have step := @Step.grounded host db
          ⟨clk, .engine (.actionEligible id generation callId ttlMs)⟩ grounded
        have exec := @exec_of_atomic _ host clk (.actionEligible id generation callId ttlMs) .lease _
          rfl db
        rw [Step.next, exec, atomic_ok.mpr run] at step
        exact step
      obtain ⟨call, known, _, _, rfl, rfl⟩ := (actionEligible_iff grounded valid).mp run
      have issued : Issued (newLease host clk id generation callId ttlMs call) call.name
          call.argsJson { db with
            actionLeases := db.actionLeases ++
              [newLease host clk id generation callId ttlMs call] } := by
        have key := tool?_key known
        exact .inl ⟨List.mem_append_right _ (List.mem_singleton_self _), call,
          List.mem_of_find?_eq_some known, key.1, key.2, rfl, rfl⟩
      obtain ⟨later, still⟩ := @runSteps_issued host _ _ _ _ after grounded' issued
      exact issued_records later still rfl newLease_token numbers

/-! ## Leases in the small store -/

theorem eligible_of_checks {id callId : Text} {generation : Int} {db : Db}
    (owned : (db.turn? id).any (fun t => t.status == .pending && t.generation == generation) = true)
    (intended : (db.tool? id callId).any (·.status == .started) = true)
    (fresh : (validateBasis id db).toBool = true) : CallEligible id generation callId db := by
  obtain ⟨t, live, own⟩ := (Option.any_eq_true _ _).mp owned
  obtain ⟨call, known, started⟩ := (Option.any_eq_true _ _).mp intended
  obtain ⟨_, valid⟩ := exists_ok fresh
  simp only [Bool.and_eq_true, beq_iff_eq] at own started
  exact ⟨⟨t, live, own⟩, ⟨call, known, started⟩, (validateBasis_fresh.mp valid).2⟩

/-- A started call of a pending turn. -/
def startedCall : List Step :=
  plainTurn ++ [plainStep (.startTool (Text.lit "r") 1 (Text.lit "c") (Text.lit "n") .null)]

/-- The same with a lease of one second. -/
def leasedCall : List Step :=
  startedCall ++ [plainStep (.actionEligible (Text.lit "r") 1 (Text.lit "c") 1000)]

/-- The first lease of a call. -/
theorem lease_exact_first :
    LeaseCorrect plainHost plainClock (Text.lit "r") 1 (Text.lit "c") 1000
      (runSteps plainHost .empty startedCall) := by
  refine (lease_exact plainHost startedCall plainClock (Text.lit "r") 1 (Text.lit "c")
    (by decide)).mpr fun _ call _ l member => ?_
  have none_ : (runSteps plainHost .empty startedCall).actionLeases = [] := by decide +kernel
  rw [none_] at member
  exact absurd member List.not_mem_nil

/-- The same call at the same millisecond is eligible and gets no second lease. -/
theorem lease_repeated :
    CallEligible (Text.lit "r") 1 (Text.lit "c") (runSteps plainHost .empty leasedCall) ∧
    ¬ LeaseCorrect plainHost plainClock (Text.lit "r") 1 (Text.lit "c") 1000
      (runSteps plainHost .empty leasedCall) := by
  have eligible : CallEligible (Text.lit "r") 1 (Text.lit "c")
      (runSteps plainHost .empty leasedCall) :=
    eligible_of_checks (by decide +kernel) (by decide +kernel) (by decide +kernel)
  refine ⟨eligible, fun correct => ?_⟩
  obtain ⟨out, run⟩ := correct.accepts.mpr eligible
  have refused : (actionEligible plainHost plainClock (Text.lit "r") 1 (Text.lit "c") 1000
      (runSteps plainHost .empty leasedCall)).toBool = false := by decide +kernel
  rw [run] at refused
  cases refused

end Cmpath
