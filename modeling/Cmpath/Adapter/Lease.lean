import Cmpath.Adapter.Intent
import Cmpath.Journal.Effect

/-!
# A lease only for a new intent

What a `before_tool` request may answer depends on whether its call is on record (`recorded`): the
same identifier with the same input, in a turn that is pending under the worker's generation.
`RoutedTurn.before_tool` keeps that law; the control plane's envelope keeps it exactly where no call
is on record and its own checks refuse nothing the engine takes.
-/

namespace Cmpath
open Lib Lib.Txn

/-! ## Requests -/

/-- The pipe carries the request and the engine takes its names. -/
def IntentRequest.wellFormed (q : IntentRequest) : Bool :=
  (sendable "tool_start" q.startArguments && int64 q.generation) &&
    (textOK q.callId && textOK q.name && q.callId.size ≤ 128)

/-- `_required_string` takes the text. -/
def plain (s : Text) (limit : Nat) : Bool := !s.strip.isEmpty && s.valid && decide (s.size ≤ limit)

/-- The control plane takes the fields of the request. -/
def IntentRequest.admitted (q : IntentRequest) : Bool :=
  plain q.requestId 128 && plain q.callId 128 && plain q.name 4096 && decide (1 ≤ q.generation)

/-- The call of the request, where the journal has it and the worker still owns the turn. -/
def IntentRequest.recorded (host : Host) (q : IntentRequest) (db : Db) : Option ToolRow :=
  if q.wellFormed then
    match pending q.requestId q.generation db with
    | .error _ => none
    | .ok _ => (db.tool? q.requestId q.callId).filter fun c =>
        c.fingerprint == callHash host q.name q.arguments.canon
  else none

/-! ## Codes of failures -/

theorem problem_code {α : Type} {code : Code} {message : String} {e : Failure}
    (h : (problem code message : Except Failure α) = .error e) : e.code = code.wire := by
  cases h
  rfl

theorem turnRow_code {id : Text} {db : Db} {e : Failure} (h : turnRow id db = .error e) :
    e.code = "retired" ∨ e.code = "not_found" := by
  unfold turnRow at h
  split at h
  · cases h
  · split at h
    · exact Or.inl (problem_code h)
    · exact Or.inr (problem_code h)

theorem pending_code {id : Text} {generation : Int} {db : Db} {e : Failure}
    (h : pending id generation db = .error e) :
    e.code ∈ ["retired", "not_found", "state", "fenced"] := by
  unfold pending at h
  rcases except_bind_error.mp h with lost | ⟨t, _, stale⟩
  · rcases turnRow_code lost with code | code <;> simp [code]
  · split at stale
    · simp [problem_code stale, Code.wire]
    · split at stale
      · simp [problem_code stale, Code.wire]
      · cases stale

theorem toolRow_code {id callId : Text} {db : Db} {e : Failure}
    (h : toolRow id callId db = .error e) : e.code = "not_found" := by
  unfold toolRow at h
  split at h
  · cases h
  · exact problem_code h

theorem validateBasis_code {id : Text} {db : Db} {e : Failure}
    (h : validateBasis id db = .error e) : e.code = "not_found" ∨ e.code = "stale_context" := by
  unfold validateBasis at h
  rcases except_bind_error.mp h with lost | ⟨r, _, stale⟩
  · unfold turnRequest at lost
    split at lost
    · exact Or.inl (problem_code lost)
    · cases lost
  · split at stale
    · cases stale
    · dsimp only at stale
      split at stale
      · exact Or.inr (problem_code stale)
      · split at stale
        · exact Or.inr (problem_code stale)
        · cases stale

/-- Once the names are taken, `StartTool` finds nothing invalid. -/
theorem startTool_code {host : Host} {id : Text} {generation : Int} {callId name : Text}
    {args : Json} {db : Db} {e : Failure}
    (names : (textOK callId && textOK name && decide (callId.size ≤ 128)) = true)
    (h : startTool host id generation callId name args db = .error e) : e.code ≠ "invalid" := by
  have all : Raises (fun e : Failure => e.code ≠ "invalid")
      (startTool host id generation callId name args) := by
    unfold startTool
    refine .bind (.ensure fun refused => by simp [names] at refused) fun _ => ?_
    refine .bind (.read fun db e gone => ?_) fun _ => ?_
    · have code := pending_code gone
      intro invalid
      simp [invalid] at code
    refine .bind (.read fun db e none_ => by cases none_) fun old => ?_
    cases old with
    | some call =>
      dsimp only
      split
      · exact .fail (by simp [Failure.code, Code.wire])
      · exact .pure _
    | none =>
      refine .bind (.read fun db e stale => ?_) fun _ => ?_
      · rcases validateBasis_code stale with code | code <;> simp [code]
      refine .bind ?_ fun _ => .bind (.read fun db e gone => ?_) fun _ => .pure _
      · unfold insertToolCall requireTurn
        refine .bind (.require (by simp [Failure.code])) fun _ => ?_
        exact .bind (.require (by simp [Failure.code])) fun _ => .modify _
      · simp [toolRow_code gone]
  exact all db e h

/-- No refusal of a lease reads like the refusal of a repeated intent. -/
theorem actionEligible_code {host : Host} {clk : Clock} {id : Text} {generation : Int}
    {callId : Text} {ttlMs : Int} {db : Db} {e : Failure}
    (h : actionEligible host clk id generation callId ttlMs db = .error e) :
    e.code ≠ "indeterminate_tool" := by
  have all : Raises (fun e : Failure => e.code ≠ "indeterminate_tool")
      (actionEligible host clk id generation callId ttlMs) := by
    unfold actionEligible
    refine .bind (.ensure fun _ => by simp [Failure.code, Code.wire]) fun _ => ?_
    refine .bind (.ensure fun _ => by simp [Failure.code, Code.wire]) fun _ => ?_
    refine .bind (.read fun db e gone => ?_) fun _ => ?_
    · have code := pending_code gone
      intro indeterminate
      simp [indeterminate] at code
    refine .bind (.read fun db e gone => by simp [toolRow_code gone]) fun _ => ?_
    refine .bind (.ensure fun _ => by simp [Failure.code, Code.wire]) fun _ => ?_
    refine .bind (.read fun db e stale => ?_) fun _ => ?_
    · rcases validateBasis_code stale with code | code <;> simp [code]
    refine .bind ?_ fun _ => .pure _
    unfold insertLease requireTurn
    refine .bind (.require (by simp [Failure.code])) fun _ => ?_
    exact .bind (.require (by simp [Failure.code])) fun _ => .modify _
  exact all db e h

/-! ## What the two engine calls answer -/

/-- The answers of `tool_start`. -/
inductive Started (host : Host) (q : IntentRequest) (db : Db) :
    Except HostError ToolCall × Db → Prop where
  | refused (e : HostError) (ill : q.wellFormed = false) (code : e.code = "invalid") :
      Started host q db (.error e, db)
  | failed (e : HostError) (well : q.wellFormed = true) (new : q.recorded host db = none)
      (code : e.code ≠ "invalid") : Started host q db (.error e, db)
  | known (call : ToolRow) (well : q.wellFormed = true) (old : q.recorded host db = some call) :
      Started host q db (.ok call.call, db)
  | created (out : ToolCall) (well : q.wellFormed = true) (new : q.recorded host db = none)
      (unknown : db.tool? q.requestId q.callId = none) (created : out.created = true)
      (started : out.status = .started) :
      Started host q db (.ok out, { db with
        toolCalls := db.toolCalls ++ [newTool host q.requestId q.callId q.name q.arguments] })

section Answers

variable {host : Host} {clk : Clock} {q : IntentRequest} {db : Db}

theorem recorded_of_ill (h : q.wellFormed = false) : q.recorded host db = none := by
  unfold IntentRequest.recorded
  rw [h]
  rfl

/-- A recorded call is a row of a turn that is pending under the worker's generation. -/
theorem recorded_some {call : ToolRow} (well : q.wellFormed = true) :
    q.recorded host db = some call ↔
      (∃ t, pending q.requestId q.generation db = .ok t) ∧
        db.tool? q.requestId q.callId = some call ∧
        call.fingerprint = callHash host q.name q.arguments.canon := by
  unfold IntentRequest.recorded
  rw [if_pos well]
  cases pending q.requestId q.generation db with
  | error e => simp
  | ok t => simp [Option.filter_eq_some_iff]

theorem toolStart_cases (host : Host) (q : IntentRequest) (db : Db) :
    Started host q db (toolStart host q db) := by
  cases carried : sendable "tool_start" q.startArguments && int64 q.generation with
  | false =>
    obtain ⟨e, refused, code⟩ := backendCall_refused
      (startTool host q.requestId q.generation q.callId q.name q.arguments) db carried
    unfold toolStart
    rw [refused]
    exact .refused e (by simp [IntentRequest.wellFormed, carried]) code
  | true =>
    cases run : startTool host q.requestId q.generation q.callId q.name q.arguments db with
    | error e =>
      unfold toolStart
      rw [backendCall_error carried run]
      cases names : textOK q.callId && textOK q.name && decide (q.callId.size ≤ 128) with
      | false =>
        refine .refused _ (by simp [IntentRequest.wellFormed, carried, names]) ?_
        have first : startTool host q.requestId q.generation q.callId q.name q.arguments db =
            .error (.problem .invalid "tool call ID and name are required") := by
          unfold startTool
          rw [names]
          rfl
        rw [first] at run
        cases run
        rfl
      | true =>
        have well : q.wellFormed = true := by
          unfold IntentRequest.wellFormed
          rw [carried, names]
          rfl
        refine .failed _ well ?_ (startTool_code names run)
        -- a call on record would have been answered
        rw [Option.eq_none_iff_forall_ne_some]
        intro call old
        obtain ⟨⟨t, current⟩, row, same⟩ := (recorded_some well).mp old
        have answered : startTool host q.requestId q.generation q.callId q.name q.arguments db =
            .ok (call.call, db) := by
          simp only [startTool, bind_ok, ensure_ok, read_ok, Except.ok.injEq]
          refine ⟨(), _, ⟨names, rfl⟩, t, _, ⟨current, rfl⟩, _, _, ⟨rfl, rfl⟩, ?_⟩
          rw [row]
          dsimp only
          rw [if_neg (by simp [same])]
          rfl
        rw [answered] at run
        cases run
    | ok r =>
      obtain ⟨out, db'⟩ := r
      unfold toolStart
      rw [backendCall_ok carried run]
      have names : (textOK q.callId && textOK q.name && decide (q.callId.size ≤ 128)) = true := by
        simp only [startTool, bind_ok, ensure_ok] at run
        obtain ⟨_, _, ⟨names, _⟩, _⟩ := run
        exact names
      have well : q.wellFormed = true := by
        unfold IntentRequest.wellFormed
        rw [carried, names]
        rfl
      obtain ⟨_, _, t, live, status, fenced, ⟨old, row, same, rfl, rfl⟩ |
        ⟨unknown, _, created, started, rfl⟩⟩ := startTool_ok run
      · exact .known old well ((recorded_some well).mpr
          ⟨⟨t, pending_ok.mpr ⟨live, status, fenced⟩⟩, row, same⟩)
      · refine .created out well ?_ unknown created started
        rw [Option.eq_none_iff_forall_ne_some]
        intro call old
        obtain ⟨_, row, _⟩ := (recorded_some well).mp old
        rw [unknown] at row
        cases row

/-- A grant is a lease for the given call, or a refusal that is not the one of a repeated intent;
    the calls on record stay. -/
theorem grant_cases (host : Host) (clk : Clock) (q : IntentRequest) (started : ToolCall) (db : Db) :
    (grant host clk q started db).2.toolCalls = db.toolCalls ∧
      ((∃ e, (grant host clk q started db).1 = .error e ∧ e.code ≠ "indeterminate_tool") ∨
        ∃ lease, (grant host clk q started db).1 = .ok ⟨started, some lease⟩) := by
  unfold grant toolEligible
  cases carried : sendable "action_eligible" q.leaseArguments &&
      (int64 q.generation && int64 q.ttlMs) with
  | false =>
    obtain ⟨e, refused, code⟩ := backendCall_refused
      (actionEligible host clk q.requestId q.generation q.callId q.ttlMs) db carried
    rw [refused]
    exact ⟨rfl, Or.inl ⟨e, rfl, by simp [code]⟩⟩
  | true =>
    cases run : actionEligible host clk q.requestId q.generation q.callId q.ttlMs db with
    | error e =>
      rw [backendCall_error carried run]
      exact ⟨rfl, Or.inl ⟨_, rfl, actionEligible_code run⟩⟩
    | ok r =>
      obtain ⟨lease, db'⟩ := r
      rw [backendCall_ok carried run]
      obtain ⟨_, _, _, _, _, _, _, _, _, _, _, _, _, _, _, rfl⟩ := actionEligible_ok run
      exact ⟨rfl, Or.inr ⟨lease, rfl⟩⟩

end Answers

/-! ## The envelope -/

section Envelope

variable {host : Host} {clk : Clock} {q : IntentRequest} {db : Db}
  {dispatch : Text → List (Text × Json) → Db → Except HostError Json × Db}

theorem requiredString_plain {s : Text} {name : String} {limit : Nat} (h : plain s limit = true) :
    requiredString (some (.str s)) name limit = .ok s := by
  simp only [plain, Bool.and_eq_true, Bool.not_eq_true', decide_eq_true_eq] at h
  obtain ⟨⟨full, valid⟩, fits⟩ := h
  unfold requiredString
  dsimp only
  rw [full, valid, if_neg (by simp), if_neg (by simp), if_neg (Nat.not_lt.mpr fits)]

theorem requiredString_refused {s : Text} {limit : Nat} (name : String)
    (h : plain s limit = false) :
    ∃ e, requiredString (some (.str s)) name limit = .error e ∧ e.code = "invalid" := by
  unfold requiredString
  dsimp only
  by_cases empty : s.strip.isEmpty = true
  · rw [if_pos empty]
    exact ⟨_, rfl, rfl⟩
  rw [if_neg empty]
  by_cases stray : (!s.valid) = true
  · rw [if_pos stray]
    exact ⟨_, rfl, rfl⟩
  rw [if_neg stray]
  by_cases long : limit < s.size
  · rw [if_pos long]
    exact ⟨_, rfl, rfl⟩
  · have taken : plain s limit = true := by
      simp only [Bool.not_eq_true, Bool.not_eq_false'] at empty stray
      simp [plain, empty, stray, Nat.not_lt.mp long]
    rw [taken] at h
    cases h

theorem integer_generation {n : Int} :
    integer (.int n) "generation" 1 none =
      if n < 1 then .error (.control "invalid" (Text.lit "generation is below its minimum"))
      else .ok n := by
  unfold integer
  dsimp only
  split <;> rfl

theorem integer_refused {value : Json} {name : String} {minimum : Int} {maximum : Option Int}
    {e : HostError} (h : integer value name minimum maximum = .error e) : e.code = "invalid" := by
  unfold integer at h
  split at h
  · split at h
    · cases h
      rfl
    · split at h
      · cases h
        rfl
      · cases h
  · cases h
    rfl

theorem integer_same {n m : Int} {name : String} {minimum : Int} {maximum : Option Int}
    (h : integer (.int n) name minimum maximum = .ok m) : m = n := by
  unfold integer at h
  dsimp only at h
  split at h
  · cases h
  · split at h
    · cases h
    · cases h
      rfl

/-- The body `tool_start` gets from the envelope. -/
def IntentRequest.startFields (q : IntentRequest) : List (Text × Json) :=
  [(Text.lit "name", .str q.name), (Text.lit "arguments", q.arguments),
    (Text.lit "request_id", .str q.requestId), (Text.lit "generation", .int q.generation),
    (Text.lit "call_id", .str q.callId)]

/-- The body `action_eligible` gets from the envelope. -/
def IntentRequest.leaseFields (q : IntentRequest) : List (Text × Json) :=
  [(Text.lit "request_id", .str q.requestId), (Text.lit "generation", .int q.generation),
    (Text.lit "call_id", .str q.callId), (Text.lit "ttl_ms", .int q.ttlMs)]

/-- The intent the envelope of a request asks for. -/
def controlIntent (host : Host) (clk : Clock) (q : IntentRequest) (db : Db) :
    Except HostError Intent × Db :=
  match controlStartTool host q.startFields db with
  | (.error e, db') => (.error e, db')
  | (.ok started, db') =>
      match controlActionEligible host clk q.leaseFields db' with
      | (.error e, db'') => (.error e, db'')
      | (.ok lease, db'') => (.ok ⟨started, some lease⟩, db'')

/-- The envelope of a request is opened as the request, or refused over its identifier. -/
theorem managedTurn_envelope :
    managedTurn host clk dispatch q.envelope db =
      match requiredString (some (.str q.requestId)) "request_id" 128 with
      | .error e => (.error e, db)
      | .ok _ => ((controlIntent host clk q db).1.map .intent, (controlIntent host clk q db).2) := by
  have opened : openEnvelope host q.envelope = (do
      let rid ← requiredString (some (.str q.requestId)) "request_id" 128
      .ok (Text.lit "before_tool", rid,
        assign "call_id" (.str q.callId) (assign "generation" (.int q.generation)
          (assign "request_id" (.str rid) [(Text.lit "name", .str q.name),
            (Text.lit "arguments", q.arguments), (Text.lit "ttl_ms", .int q.ttlMs)])))) := rfl
  unfold managedTurn
  rw [opened]
  cases named : plain q.requestId 128 with
  | false =>
    obtain ⟨e, refused, _⟩ := requiredString_refused "request_id" named
    rw [refused]
    rfl
  | true =>
    rw [requiredString_plain named]
    rfl

/-- The checks of a request's own identifier and generation. -/
def IntentRequest.worker (q : IntentRequest) : Except HostError (Text × Int) := do
  let rid ← requiredString (some (.str q.requestId)) "request_id" 128
  let gen ← integer (.int q.generation) "generation" 1 none
  .ok (rid, gen)

theorem startToolFields_eq :
    startToolFields q.startFields = (do
      let rid ← requiredString (some (.str q.requestId)) "request_id" 128
      let gen ← integer (.int q.generation) "generation" 1 none
      let cid ← requiredString (some (.str q.callId)) "call_id" 128
      let name ← requiredString (some (.str q.name)) "name" 4096
      .ok { requestId := rid, generation := gen, callId := cid, name := name
            arguments := q.arguments }) := by
  have worker : workerOf q.startFields = q.worker := rfl
  unfold startToolFields
  rw [worker, IntentRequest.worker]
  cases requiredString (some (.str q.requestId)) "request_id" 128 with
  | error e => rfl
  | ok rid =>
    cases integer (.int q.generation) "generation" 1 none with
    | error e => rfl
    | ok gen => rfl

theorem actionEligibleFields_eq :
    actionEligibleFields q.leaseFields = (do
      let rid ← requiredString (some (.str q.requestId)) "request_id" 128
      let gen ← integer (.int q.generation) "generation" 1 none
      let cid ← requiredString (some (.str q.callId)) "call_id" 128
      let ttl ← integer (.int q.ttlMs) "ttl_ms" 0 (some 600000)
      .ok { requestId := rid, generation := gen, callId := cid, name := [], arguments := .null
            ttlMs := ttl }) := by
  have worker : workerOf q.leaseFields = q.worker := rfl
  unfold actionEligibleFields
  rw [worker, IntentRequest.worker]
  cases requiredString (some (.str q.requestId)) "request_id" 128 with
  | error e => rfl
  | ok rid =>
    cases integer (.int q.generation) "generation" 1 none with
    | error e => rfl
    | ok gen => rfl

/-- The engine refuses every time to live the control plane refuses. -/
theorem grant_out_of_range (host : Host) (clk : Clock) (started : ToolCall) (db : Db)
    {e : HostError} (h : integer (.int q.ttlMs) "ttl_ms" 0 (some 600000) = .error e) :
    ∃ f, grant host clk q started db = (.error f, db) ∧ f.code = "invalid" := by
  have range : (1 ≤ (if q.ttlMs = 0 then 5000 else q.ttlMs) &&
      decide ((if q.ttlMs = 0 then 5000 else q.ttlMs) ≤ 600000)) = false := by
    unfold integer at h
    dsimp only at h
    split at h
    · rename_i low
      rw [if_neg (by omega)]
      simp
      omega
    · split at h
      · rename_i high
        simp only [Option.any_some, decide_eq_true_eq] at high
        rw [if_neg (by omega)]
        simp
        omega
      · cases h
  unfold grant toolEligible
  cases carried : sendable "action_eligible" q.leaseArguments &&
      (int64 q.generation && int64 q.ttlMs) with
  | false =>
    obtain ⟨f, refused, code⟩ := backendCall_refused
      (actionEligible host clk q.requestId q.generation q.callId q.ttlMs) db carried
    rw [refused]
    exact ⟨f, rfl, code⟩
  | true =>
    have failed : ∃ f, actionEligible host clk q.requestId q.generation q.callId q.ttlMs db =
        .error f ∧ f.code = "invalid" := by
      unfold actionEligible
      cases names : textOK q.callId && decide (q.callId.size ≤ 128) with
      | false => exact ⟨_, rfl, rfl⟩
      | true =>
        refine ⟨.problem .invalid "lease TTL must be between 1 and 600000 milliseconds",
          (bind_of_ok rfl).trans (bind_of_error ?_), rfl⟩
        unfold ensure
        rw [range]
        rfl
    obtain ⟨f, run, code⟩ := failed
    rw [backendCall_error carried run]
    exact ⟨_, rfl, code⟩

/-- A request the control plane takes: the engine's two calls, with its own bound on the lease
    between them. -/
theorem controlIntent_admitted (h : q.admitted = true) :
    controlIntent host clk q db =
      match toolStart host q db with
      | (.error e, db') => (.error e, db')
      | (.ok started, db') =>
          match integer (.int q.ttlMs) "ttl_ms" 0 (some 600000) with
          | .error e => (.error e, db')
          | .ok _ => grant host clk q started db' := by
  simp only [IntentRequest.admitted, Bool.and_eq_true, decide_eq_true_eq] at h
  obtain ⟨⟨⟨rid, cid⟩, name⟩, gen⟩ := h
  unfold controlIntent controlStartTool controlActionEligible
  rw [startToolFields_eq, actionEligibleFields_eq, requiredString_plain rid, integer_generation,
    if_neg (Int.not_lt.mpr gen), requiredString_plain cid, requiredString_plain name]
  dsimp only [bind, Except.bind]
  have same : toolStart host { requestId := q.requestId, generation := q.generation
                               callId := q.callId, name := q.name, arguments := q.arguments } db =
      toolStart host q db := rfl
  rw [same]
  cases toolStart host q db with
  | mk answer db' =>
    cases answer with
    | error e => rfl
    | ok started =>
      dsimp only
      cases range : integer (.int q.ttlMs) "ttl_ms" 0 (some 600000) with
      | error e => rfl
      | ok ttl =>
        rw [integer_same range]
        rfl

/-- A request the control plane does not take is invalid and runs nothing. -/
theorem managedTurn_refused (host : Host) (clk : Clock)
    (dispatch : Text → List (Text × Json) → Db → Except HostError Json × Db) (db : Db)
    (h : q.admitted = false) :
    ∃ e, managedTurn host clk dispatch q.envelope db = (.error e, db) ∧ e.code = "invalid" := by
  rw [managedTurn_envelope]
  cases rid : plain q.requestId 128 with
  | false =>
    obtain ⟨e, refused, code⟩ := requiredString_refused "request_id" rid
    rw [refused]
    exact ⟨e, rfl, code⟩
  | true =>
    rw [requiredString_plain rid]
    unfold controlIntent controlStartTool
    rw [startToolFields_eq, requiredString_plain rid]
    cases gen : integer (.int q.generation) "generation" 1 none with
    | error e => exact ⟨e, rfl, integer_refused gen⟩
    | ok n =>
      have positive : 1 ≤ q.generation := by
        by_contra low
        rw [integer_generation, if_pos (Int.not_le.mp low)] at gen
        cases gen
      cases cid : plain q.callId 128 with
      | false =>
        obtain ⟨e, refused, code⟩ := requiredString_refused "call_id" cid
        rw [refused]
        exact ⟨e, rfl, code⟩
      | true =>
        rw [requiredString_plain cid]
        cases name : plain q.name 4096 with
        | false =>
          obtain ⟨e, refused, code⟩ := requiredString_refused "name" name
          rw [refused]
          exact ⟨e, rfl, code⟩
        | true =>
          simp [IntentRequest.admitted, rid, cid, name, positive] at h

end Envelope

/-! ## The law -/

/-- What a host gets from an adapter, and the journal afterwards. -/
abbrev Outcome : Type := Except HostError ManagedReply × Db

/-- `RoutedTurn.before_tool` as an outcome. -/
def routedOutcome (host : Host) (clk : Clock) (q : IntentRequest) (db : Db) : Outcome :=
  ((routedBeforeTool host clk q db).1.map .intent, (routedBeforeTool host clk q db).2)

/-- A lease comes with an intent this request created, a repeated request is refused while its call
    has no result and gets the recorded call, without a lease, once it has one. -/
structure Authorised (host : Host) (q : IntentRequest) (db : Db) (o : Outcome) : Prop where
  lease : ∀ tool lease, o.1 = .ok (.intent ⟨tool, some lease⟩) →
    db.tool? q.requestId q.callId = none ∧ tool.created = true ∧
      newTool host q.requestId q.callId q.name q.arguments ∈ o.2.toolCalls
  started : ∀ call, q.recorded host db = some call → call.status = .started →
    ∃ e, o.1 = .error e ∧ e.code = "indeterminate_tool"
  completed : ∀ call, q.recorded host db = some call → call.status = .completed →
    o.1 = .ok (.intent ⟨call.call, none⟩)

/-- The same reply or a refusal under the same code, and the same journal afterwards. -/
def Outcome.Alike (a b : Outcome) : Prop :=
  a.2 = b.2 ∧ match a.1, b.1 with
    | .ok x, .ok y => x = y
    | .error e, .error f => e.code = f.code
    | _, _ => False

theorem Outcome.Alike.refl (o : Outcome) : Outcome.Alike o o := by
  obtain ⟨answer, db⟩ := o
  cases answer with
  | error e => exact ⟨rfl, rfl⟩
  | ok reply => exact ⟨rfl, rfl⟩

/-- Both adapters keep the law, and they cannot be told apart. -/
def AuthorisedAlike (host : Host) (clk : Clock)
    (dispatch : Text → List (Text × Json) → Db → Except HostError Json × Db) (q : IntentRequest)
    (db : Db) : Prop :=
  Authorised host q db (routedOutcome host clk q db) ∧
    Authorised host q db (managedTurn host clk dispatch q.envelope db) ∧
    Outcome.Alike (managedTurn host clk dispatch q.envelope db) (routedOutcome host clk q db)

section Law

variable {host : Host} {clk : Clock} {q : IntentRequest} {db : Db}
  {dispatch : Text → List (Text × Json) → Db → Except HostError Json × Db}

/-- A refusal keeps the law where no call is on record. -/
theorem Authorised.of_error {e : HostError} {db' : Db} (new : q.recorded host db = none) :
    Authorised host q db (.error e, db') := by
  refine ⟨?_, ?_, ?_⟩
  · intro tool lease h
    cases h
  · intro call old
    rw [new] at old
    cases old
  · intro call old
    rw [new] at old
    cases old

/-- A grant of a new intent keeps the law. -/
theorem Authorised.of_grant {out : ToolCall} {db' : Db} (new : q.recorded host db = none)
    (unknown : db.tool? q.requestId q.callId = none) (created : out.created = true)
    (rows : db'.toolCalls =
      db.toolCalls ++ [newTool host q.requestId q.callId q.name q.arguments]) :
    Authorised host q db
      ((grant host clk q out db').1.map .intent, (grant host clk q out db').2) := by
  obtain ⟨calls, ⟨e, refused, _⟩ | ⟨lease, given⟩⟩ := grant_cases host clk q out db'
  · rw [refused]
    exact .of_error new
  · refine ⟨?_, ?_, ?_⟩
    · intro tool other h
      rw [given] at h
      cases h
      refine ⟨unknown, created, ?_⟩
      rw [calls, rows]
      exact List.mem_append_right _ (List.mem_singleton_self _)
    · intro call old
      rw [new] at old
      cases old
    · intro call old
      rw [new] at old
      cases old

/-- `RoutedTurn.before_tool` keeps the law in every state. -/
theorem routedBeforeTool_authorised (host : Host) (clk : Clock) (q : IntentRequest) (db : Db) :
    Authorised host q db (routedOutcome host clk q db) := by
  have answer := toolStart_cases host q db
  unfold routedOutcome routedBeforeTool
  generalize toolStart host q db = started at answer
  cases answer with
  | refused e ill _ => exact .of_error (recorded_of_ill ill)
  | failed e _ new _ => exact .of_error new
  | created out _ new unknown created status =>
    dsimp only
    rw [if_neg (by rw [status]; decide), created]
    exact .of_grant new unknown created rfl
  | known call _ old =>
    have same : ∀ other, q.recorded host db = some other → other = call := by
      intro other found
      rw [old] at found
      exact (Option.some.inj found).symm
    dsimp only
    by_cases done : call.call.status = .completed
    · rw [if_pos done]
      refine ⟨?_, ?_, ?_⟩
      · intro tool lease h
        cases h
      · intro other found open_
        rw [same other found] at open_
        have status : call.status = .completed := done
        rw [status] at open_
        cases open_
      · intro other found _
        rw [same other found]
        rfl
    · rw [if_neg done]
      refine ⟨?_, ?_, ?_⟩
      · intro tool lease h
        cases h
      · intro other found _
        exact ⟨_, rfl, rfl⟩
      · intro other found closed
        rw [same other found] at closed
        exact absurd closed done

/-- Where the control plane takes the request and no call is on record, the two adapters answer
    alike. -/
theorem managedTurn_alike (admitted : q.admitted = true) (new : q.recorded host db = none) :
    Authorised host q db (managedTurn host clk dispatch q.envelope db) ∧
      Outcome.Alike (managedTurn host clk dispatch q.envelope db) (routedOutcome host clk q db) := by
  have rid : plain q.requestId 128 = true := by
    simp only [IntentRequest.admitted, Bool.and_eq_true] at admitted
    exact admitted.1.1.1
  rw [managedTurn_envelope, requiredString_plain rid, controlIntent_admitted admitted]
  have answer := toolStart_cases host q db
  unfold routedOutcome routedBeforeTool
  generalize toolStart host q db = started at answer
  cases answer with
  | refused e ill _ => exact ⟨.of_error new, rfl, rfl⟩
  | failed e _ _ _ => exact ⟨.of_error new, rfl, rfl⟩
  | known call _ old =>
    rw [new] at old
    cases old
  | created out _ _ unknown created status =>
    dsimp only
    rw [if_neg (by rw [status]; decide), created]
    cases range : integer (.int q.ttlMs) "ttl_ms" 0 (some 600000) with
    | ok ttl =>
      exact ⟨.of_grant new unknown created rfl, .refl _⟩
    | error e =>
      -- the control plane refuses the time to live itself, the engine does so for the other adapter
      obtain ⟨f, late, code⟩ := grant_out_of_range host clk out
        { db with toolCalls :=
            db.toolCalls ++ [newTool host q.requestId q.callId q.name q.arguments] } range
      refine ⟨.of_error new, ?_⟩
      show Outcome.Alike _ ((grant host clk q out _).1.map .intent, (grant host clk q out _).2)
      rw [late]
      exact ⟨rfl, (integer_refused range).trans code.symm⟩

/-- The control plane never answers a repeated request as the law asks. -/
theorem managedTurn_repeated {call : ToolRow} (admitted : q.admitted = true)
    (old : q.recorded host db = some call) :
    ¬ Authorised host q db (managedTurn host clk dispatch q.envelope db) := by
  intro law
  have rid : plain q.requestId 128 = true := by
    simp only [IntentRequest.admitted, Bool.and_eq_true] at admitted
    exact admitted.1.1.1
  have answered : toolStart host q db = (.ok call.call, db) := by
    have answer := toolStart_cases host q db
    generalize toolStart host q db = started at answer
    cases answer with
    | refused e ill _ =>
      rw [recorded_of_ill ill] at old
      cases old
    | failed e _ new _ =>
      rw [new] at old
      cases old
    | known other _ found =>
      rw [old] at found
      rw [Option.some.inj found]
    | created out _ new _ _ _ =>
      rw [new] at old
      cases old
  -- the reply either carries a lease or is the refusal of one
  have reply : (∃ e, (managedTurn host clk dispatch q.envelope db).1 = .error e ∧
        e.code ≠ "indeterminate_tool") ∨
      ∃ lease, (managedTurn host clk dispatch q.envelope db).1 =
        .ok (.intent ⟨call.call, some lease⟩) := by
    rw [managedTurn_envelope, requiredString_plain rid, controlIntent_admitted admitted, answered]
    dsimp only
    cases range : integer (.int q.ttlMs) "ttl_ms" 0 (some 600000) with
    | error e => exact Or.inl ⟨e, rfl, by simp [integer_refused range]⟩
    | ok ttl =>
      obtain ⟨_, ⟨e, refused, code⟩ | ⟨lease, given⟩⟩ := grant_cases host clk q call.call db
      · rw [refused]
        exact Or.inl ⟨e, rfl, code⟩
      · rw [given]
        exact Or.inr ⟨lease, rfl⟩
  cases status : call.status with
  | started =>
    obtain ⟨e, refused, code⟩ := law.started call old status
    rcases reply with ⟨f, other, clear⟩ | ⟨lease, given⟩
    · rw [refused] at other
      cases other
      exact clear code
    · rw [refused] at given
      cases given
  | completed =>
    have recorded := law.completed call old status
    rcases reply with ⟨f, other, _⟩ | ⟨lease, given⟩
    · rw [recorded] at other
      cases other
    · rw [recorded] at given
      cases given

/-- A request only the control plane refuses tells the two adapters apart. -/
theorem managedTurn_stricter (well : q.wellFormed = true) (refused : q.admitted = false) :
    ¬ Outcome.Alike (managedTurn host clk dispatch q.envelope db)
      (routedOutcome host clk q db) := by
  intro alike
  obtain ⟨e, answer, invalid⟩ := managedTurn_refused host clk dispatch db refused
  rw [answer] at alike
  obtain ⟨journal, codes⟩ := alike
  unfold routedOutcome routedBeforeTool at journal codes
  have started := toolStart_cases host q db
  generalize toolStart host q db = out at started journal codes
  cases started with
  | refused _ ill _ =>
    rw [well] at ill
    cases ill
  | failed f _ _ code => exact code (codes.symm.trans invalid)
  | known call _ _ =>
    dsimp only at codes
    by_cases done : call.call.status = .completed
    · rw [if_pos done] at codes
      exact codes
    · rw [if_neg done] at codes
      have different : e.code = "indeterminate_tool" := codes
      rw [invalid] at different
      exact absurd different (by decide)
  | created call _ _ _ created status =>
    dsimp only at journal
    rw [if_neg (by rw [status]; decide), created] at journal
    have rows := congrArg (fun db : Db => db.toolCalls.length) journal
    have granted := (grant_cases host clk q call { db with toolCalls :=
      db.toolCalls ++ [newTool host q.requestId q.callId q.name q.arguments] }).1
    simp [granted] at rows

/-- **Leases only for new intents.** Both adapters keep the law and answer alike exactly when the
    engine itself refuses the request as invalid, or the control plane takes it and the journal has
    no call of this identifier and input under the worker's turn. -/
theorem before_tool_exact (host : Host) (clk : Clock)
    (dispatch : Text → List (Text × Json) → Db → Except HostError Json × Db) (q : IntentRequest)
    (db : Db) :
    AuthorisedAlike host clk dispatch q db ↔
      q.wellFormed = false ∨ (q.admitted = true ∧ q.recorded host db = none) := by
  constructor
  · rintro ⟨_, law, alike⟩
    cases well : q.wellFormed with
    | false => exact Or.inl rfl
    | true =>
      right
      cases admitted : q.admitted with
      | false => exact absurd alike (managedTurn_stricter well admitted)
      | true =>
        cases old : q.recorded host db with
        | none => exact ⟨rfl, rfl⟩
        | some call => exact absurd law (managedTurn_repeated admitted old)
  · intro condition
    have routed := routedBeforeTool_authorised host clk q db
    rcases condition with ill | ⟨admitted, new⟩
    · have new : q.recorded host db = none := recorded_of_ill ill
      cases admitted : q.admitted with
      | true => exact ⟨routed, managedTurn_alike admitted new⟩
      | false =>
        obtain ⟨e, answer, invalid⟩ := managedTurn_refused host clk dispatch db admitted
        refine ⟨routed, ?_, ?_⟩
        · rw [answer]
          exact .of_error new
        · rw [answer]
          unfold routedOutcome routedBeforeTool
          have started := toolStart_cases host q db
          generalize toolStart host q db = out at started
          cases started with
          | refused f _ code => exact ⟨rfl, invalid.trans code.symm⟩
          | failed _ well _ _ => rw [ill] at well; cases well
          | known _ well _ => rw [ill] at well; cases well
          | created _ well _ _ _ _ => rw [ill] at well; cases well
    · exact ⟨routed, managedTurn_alike admitted new⟩

end Law

/-! ## A request sent twice -/

def lookup : IntentRequest :=
  { requestId := Text.lit "r", generation := 1, callId := Text.lit "t1", name := Text.lit "lookup"
    arguments := .obj [(Text.lit "x", .int 1)] }

/-- A control plane without other operations. -/
def noDispatch (_ : Text) (_ : List (Text × Json)) (db : Db) : Except HostError Json × Db :=
  (.error (.control "operation" (Text.lit "unknown control-plane operation")), db)

/-- A digest that tells the texts of odd and of even sum apart. -/
def parityHost : Host :=
  { plainHost with
    sha256 := fun t =>
      if (t.map Rune.rank).sum % 2 = 0 then plainDigest
      else ⟨List.replicate 64 (.char '1'), by decide, by decide⟩ }

/-- The journal after the first envelope, whose answer was lost. -/
def askedDb : Db :=
  (managedTurn parityHost plainClock noDispatch lookup.envelope
    (runSteps parityHost .empty plainTurn)).2

/-- A clock a millisecond later. -/
def laterClock : Clock := ⟨fun _ => .epoch, 1⟩

/-- The reply is an intent that was there before, with a lease. -/
def regrants : Except HostError ManagedReply → Bool
  | .ok (.intent i) => !i.tool.created && i.eligibility.isSome
  | _ => false

/-- The client sends the envelope again: the intent is on record, and the control plane gives
    another lease for it. -/
theorem before_tool_retried :
    (lookup.recorded parityHost askedDb).any (·.status == .started) = true ∧
      regrants (managedTurn parityHost laterClock noDispatch lookup.envelope askedDb).1 = true ∧
      ¬ AuthorisedAlike parityHost laterClock noDispatch lookup askedDb := by
  have recorded : (lookup.recorded parityHost askedDb).any (·.status == .started) = true := by
    decide +kernel
  obtain ⟨call, old, _⟩ := (Option.any_eq_true _ _).mp recorded
  exact ⟨recorded, by decide +kernel,
    fun ⟨_, law, _⟩ => managedTurn_repeated (by decide +kernel) old law⟩

end Cmpath
