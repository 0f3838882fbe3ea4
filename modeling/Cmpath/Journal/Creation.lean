import Cmpath.Journal.Callback

/-!
# At most one turn for a request

A request lives in its turn first and in its tombstone later, and both keep its fingerprint
(`Known`). `Begin` creates a turn, and writes its query, only for an identifier neither of them
names; nothing takes both away, so it does so once. `Run` calls back on a creation alone.
-/

namespace Cmpath
open Lib Lib.Txn

/-- The request has a turn or a tombstone, with this fingerprint. -/
def Known (id print : Text) (db : Db) : Prop :=
  (∃ t ∈ db.turns, t.requestId = id ∧ t.fingerprint = print) ∨
    ∃ r ∈ db.retiredTurns, r.requestId = id ∧ r.fingerprint = print

/-- The step created the turn of this request. -/
def Created (host : Host) (id : Text) (db db' : Db) : Prop :=
  ∃ clk r c row payload basis input custom, normalizeRequest input custom = .ok (r, c) ∧
    Begun host clk r c row payload basis db db' ∧ r.requestId = id

section Known

variable {host : Host} {db db' : Db} {id print : Text}

/-- Nothing makes a request unknown, or known by another fingerprint. -/
theorem Step.known (step : Step) (keys : JournalKeys db.toJournal) (h : Known id print db) :
    Known id print (step.next host db) := by
  rcases step.change host db with change | evolves
  · rcases h with ⟨t, live, own, same⟩ | ⟨r, member, own⟩
    · rcases change.turn_step keys live with ⟨u, later, moved⟩ | removed
      · exact .inl ⟨u, later, moved.record.1.trans own, moved.record.2.2.1.trans same⟩
      · obtain ⟨_, tomb⟩ := removed.tombstone
        exact .inr ⟨_, tomb, own, same⟩
    · exact .inr ⟨r, change.retired_step keys member, own⟩
  · unfold Known
    rw [evolves.journal]
    exact h

theorem Follows.known {allowed : Step → Prop} {created : List Text}
    (h : Follows host allowed created db db') (keys : JournalKeys db.toJournal)
    (known : Known id print db) : Known id print db' := by
  rcases h with ⟨rfl, _⟩ | ⟨step, _, rfl, _⟩
  · exact known
  · exact step.known keys known

/-- A request is created while it is unknown. -/
theorem Created.unknown (h : Created host id db db') : ¬ Known id print db := by
  obtain ⟨clk, r, c, row, payload, basis, input, custom, _, begun, rfl⟩ := h
  rintro (⟨t, live, own, _⟩ | ⟨t, member, own, _⟩)
  · exact turn?_none begun.unknown t live own
  · exact retired?_none begun.unretired t member own

theorem Begun.known {clk : Clock} {r : Request} {c : Counter} {row : TaskRow} {payload : Package}
    {basis : List BasisRow} (h : Begun host clk r c row payload basis db db') :
    Known r.requestId (fingerprint host r.toJson) db' := by
  refine .inl ⟨newTurn host clk r row.reopenedRevision payload, ?_, rfl, rfl⟩
  rw [congrArg Journal.turns h.journal]
  exact List.mem_append_right _ (List.mem_singleton_self _)

/-- It is known from then on. -/
theorem Created.known (h : Created host id db db') : ∃ print, Known id print db' := by
  obtain ⟨clk, r, c, row, payload, basis, input, custom, _, begun, rfl⟩ := h
  exact ⟨_, begun.known⟩

/-- What a `Begin` answers is known by its own fingerprint. -/
theorem begin_answers {clk : Clock} {input r : Request} {custom : List CustomCounter} {c : Counter}
    {out : Turn} (normal : normalizeRequest input custom = .ok (r, c))
    (h : begin host clk input custom db = .ok (out, db')) :
    Known r.requestId (fingerprint host r.toJson) db' := by
  obtain ⟨r', c', normal', ⟨old, _, live, same, _, rfl⟩ | ⟨row, payload, basis, begun, _⟩⟩ :=
    begin_ok h
  all_goals
    rw [normal] at normal'
    cases normal'
  · exact .inl ⟨old, turn?_mem live, turn?_id live, same⟩
  · exact begun.known

theorem Created.valid (h : Created host id db db') : id.valid = true := by
  obtain ⟨clk, r, c, row, payload, basis, input, custom, normal, _, rfl⟩ := h
  exact textOK_valid (normalizeRequest_ok normal).id

/-- A `Begin` with another fingerprint than the known one is a conflict. -/
theorem begin_conflict (clk : Clock) {input r : Request} {custom : List CustomCounter} {c : Counter}
    (keys : JournalKeys db.toJournal) (normal : normalizeRequest input custom = .ok (r, c))
    (known : Known r.requestId print db) (other : fingerprint host r.toJson ≠ print) :
    ∃ message, begin host clk input custom db = .error (.problem .conflict message) := by
  unfold begin
  rw [normal]
  dsimp only [beginNormal]
  rcases known with ⟨t, live, own, rfl⟩ | ⟨t, member, own, rfl⟩
  · have unretired : db.retired? r.requestId = none := by
      refine List.find?_eq_none.mpr fun old tomb hit => ?_
      exact keys.apart t live old tomb ((beq_iff_eq.mp hit).trans own.symm)
    have found : db.turn? r.requestId = some t := by
      rw [← own]
      exact keys.turns.find?_eq live
    rw [unretired, found]
    dsimp only
    rw [if_pos (by simpa using other.symm)]
    exact ⟨_, rfl⟩
  · have found : db.retired? r.requestId = some t := by
      rw [← own]
      exact keys.retired.find?_eq member
    rw [found]
    dsimp only
    rw [if_pos (by simpa using other.symm)]
    exact ⟨_, rfl⟩

/-- An operation that says it created a turn did. -/
theorem Op.creation {clk : Clock} {op : Op} {out : Response}
    (h : op.run host clk db = .ok (out, db')) :
    Response.creation (.ok out) = [] ∨
      ∃ id, Response.creation (.ok out) = [id] ∧ Created host id db db' := by
  cases op with
  | begin input custom =>
    obtain ⟨turn, run, rfl⟩ := responding_ok.mp h
    obtain ⟨r, c, normal, ⟨old, _, _, _, rfl, _⟩ | ⟨row, payload, basis, begun, rfl⟩⟩ := begin_ok run
    · exact .inl rfl
    · exact .inr ⟨r.requestId, rfl, clk, r, c, row, payload, basis, input, custom, normal, begun, rfl⟩
  | recover id generation =>
    obtain ⟨turn, run, rfl⟩ := responding_ok.mp h
    exact .inl (Turn.creation_nil (recover_created run))
  | commit id generation reply =>
    obtain ⟨turn, run, rfl⟩ := responding_ok.mp h
    exact .inl (Turn.creation_nil (commit_created run))
  | turn id =>
    obtain ⟨turn, run, rfl⟩ := responding_ok.mp h
    exact .inl (Turn.creation_nil (turn_created (read_ok.mp run).1))
  | _ =>
    obtain ⟨_, _, rfl⟩ := responding_ok.mp h
    exact .inl rfl

/-- So does a step of anybody. -/
theorem Step.creation (step : Step) (db : Db) :
    Response.creation (step.exec host db).1 = [] ∨
      ∃ id, Response.creation (step.exec host db).1 = [id] ∧
        Created host id db (step.next host db) := by
  unfold Step.next Step.exec
  cases run : atomic (step.action.run host step.clk) db with
  | mk result db' =>
    cases result with
    | error e => exact .inl rfl
    | ok out =>
      have ran := atomic_ok.mp run
      cases action : step.action with
      | engine op =>
        rw [action] at ran
        exact Op.creation ran
      | memory op =>
        rw [action] at ran
        cases op <;>
        · obtain ⟨_, _, rfl⟩ := responding_ok.mp ran
          exact .inl rfl
      | direct write =>
        rw [action] at ran
        obtain ⟨_, _, rfl⟩ := responding_ok.mp ran
        exact .inl rfl

theorem Follows.creation {allowed : Step → Prop} {created : List Text}
    (h : Follows host allowed created db db') :
    created = [] ∨ ∃ id, created = [id] ∧ Created host id db db' := by
  rcases h with ⟨_, rfl⟩ | ⟨step, _, rfl, rfl⟩
  · exact .inl rfl
  · exact step.creation db

end Known

/-! ## The query of a turn -/

/-- The source column of the messages a turn writes itself. -/
def turnMark (id : Text) : Text := (encode (object (turnSource id))).marshal

/-- The message is the query a `Begin` of this request wrote. -/
def MessageRow.begins (id : Text) (m : MessageRow) : Bool :=
  m.role == .user && m.source.marshal == turnMark id

/-- The queries of a request. -/
def Db.queries (db : Db) (id : Text) : Nat := db.messages.countP (MessageRow.begins id)

theorem turnMark_eq {id : Text} (valid : id.valid = true) :
    turnMark id = .char '\x7b' :: (Json.quote (Text.lit "request_id") ++
      (.char ':' :: (Json.quote id ++ [.char '\x7d']))) := by
  have fields : encode (object (turnSource id)) = .obj [(Text.lit "request_id", .str id)] := by
    simp only [turnSource, object, encode, Json.canonFields, Json.canon, Json.scrub,
      Json.scrubFields, List.any_nil, Bool.false_eq_true, if_false, List.orderedInsert,
      Json.scrubText_of_valid valid, Json.scrubText_of_valid (Text.valid_lit "request_id")]
  rw [turnMark, fields]
  simp only [Json.marshal, Json.marshalFields, List.append_assoc, List.cons_append]

/-- Different requests write different sources. -/
theorem turnMark_inj {a b : Text} (validA : a.valid = true) (validB : b.valid = true)
    (same : turnMark a = turnMark b) : a = b := by
  rw [turnMark_eq validA, turnMark_eq validB] at same
  have rest := List.append_cancel_left (List.cons.inj same).2
  have texts := (Json.quote_cancel (List.cons.inj rest).2).1
  rwa [Text.blur_of_valid validA, Text.blur_of_valid validB] at texts

section Queries

variable {host : Host} {db db' : Db} {id : Text}

theorem queries_of_messages (same : db'.messages = db.messages) : db'.queries id = db.queries id := by
  unfold Db.queries
  rw [same]

/-- A message of another role is no query. -/
theorem queries_append {m : MessageRow} (role : m.role ≠ .user)
    (added : db'.messages = db.messages ++ [m]) : db'.queries id = db.queries id := by
  have none_ : m.begins id = false := by
    unfold MessageRow.begins
    rw [beq_eq_false_iff_ne.mpr role]
    rfl
  unfold Db.queries
  rw [added, List.countP_append, List.countP_singleton, none_]
  rfl

theorem queries_silent (h : Evolves Write.Silent db db') : db'.queries id = db.queries id := by
  refine h.inv (P := fun d => d.queries id = db.queries id) (fun w d kind _ same => ?_) rfl
  cases w with
  | insertTask | insertFact | insertDependency | insertAlias | event | runtime => exact same
  | _ => exact kind.elim

theorem Begun.queries {clk : Clock} {r : Request} {c : Counter} {row : TaskRow} {payload : Package}
    {basis : List BasisRow} (h : Begun host clk r c row payload basis db db')
    (valid : r.requestId.valid = true) (own : id.valid = true) :
    db'.queries id = db.queries id + [r.requestId].count id := by
  have before : (db.reopened row).messages = db.messages := by
    unfold Db.reopened
    split <;> rfl
  have added : db'.messages = db.messages ++ [queryMessage (db.reopened row) clk r] := by
    rw [h.after, ← before]
    rfl
  have mark : (queryMessage (db.reopened row) clk r).begins id = (r.requestId == id) := by
    show (turnMark r.requestId == turnMark id) = _
    rw [Bool.eq_iff_iff, beq_iff_eq, beq_iff_eq]
    exact ⟨turnMark_inj valid own, fun same => by rw [same]⟩
  unfold Db.queries
  rw [added, List.countP_append, List.countP_singleton, mark, List.count_singleton]

/-- An operation on turns writes a query for the turn it creates and for no other. -/
theorem Op.queries {clk : Clock} {op : Op} {out : Response}
    (other : ∀ inputs, op ≠ .appendBatch inputs) (valid : id.valid = true)
    (h : op.run host clk db = .ok (out, db')) :
    db'.queries id = db.queries id + (Response.creation (.ok out)).count id := by
  cases op with
  | appendBatch inputs => exact absurd rfl (other inputs)
  | createTask input =>
    obtain ⟨_, run, rfl⟩ := responding_ok.mp h
    exact queries_silent (keeps_createTask _ _ _ _ _ _ run)
  | setFact taskId f =>
    obtain ⟨_, run, rfl⟩ := responding_ok.mp h
    exact queries_silent (keeps_setFact (fun _ => trivial) _ _ _ _ _ _ run)
  | begin input custom =>
    obtain ⟨_, run, rfl⟩ := responding_ok.mp h
    obtain ⟨r, c, normal, ⟨_, _, _, _, rfl, rfl⟩ | ⟨row, payload, basis, begun, rfl⟩⟩ := begin_ok run
    · rfl
    · exact begun.queries (textOK_valid (normalizeRequest_ok normal).id) valid
  | commit request generation reply =>
    obtain ⟨turn, run, rfl⟩ := responding_ok.mp h
    rw [show Response.creation (.ok (.turn turn)) = [] from Turn.creation_nil (commit_created run)]
    rcases commit_ok run with ⟨_, _, _, _, _, _, rfl⟩ | ⟨t, row, facts, snapshot, edges, done⟩
    · rfl
    · refine queries_append (m := replyMessage db clk request t.taskId reply) nofun ?_
      rw [done.after]
      exact (evolves_facts done.factual).2.1
  | finishTool request generation callId result tokens =>
    obtain ⟨_, run, rfl⟩ := responding_ok.mp h
    obtain ⟨t, call, _, _, _, _, ⟨_, rfl⟩ | ⟨_, finished⟩⟩ := finishTool_ok run
    · rfl
    · obtain ⟨_, _, _, _, _, _, _, _, rfl⟩ := finished.taskEpoch
      exact queries_append (m := resultMessage db clk t.taskId call _) nofun rfl
  | recover request generation =>
    obtain ⟨turn, run, rfl⟩ := responding_ok.mp h
    rw [show Response.creation (.ok (.turn turn)) = [] from Turn.creation_nil (recover_created run)]
    obtain ⟨_, _, _, _, _, _, _, rfl⟩ := recover_ok run
    rfl
  | abort request generation =>
    obtain ⟨_, run, rfl⟩ := responding_ok.mp h
    obtain ⟨_, _, _, _, rfl⟩ := abort_ok run
    rfl
  | actionEligible request generation callId ttlMs =>
    obtain ⟨_, run, rfl⟩ := responding_ok.mp h
    obtain ⟨_, _, _, _, _, _, _, _, _, _, _, _, _, _, _, rfl⟩ := actionEligible_ok run
    rfl
  | startTool request generation callId name args =>
    obtain ⟨_, run, rfl⟩ := responding_ok.mp h
    obtain ⟨_, _, _, _, _, _, ⟨_, _, _, _, rfl⟩ | ⟨_, _, _, _, rfl⟩⟩ := startTool_ok run <;> rfl
  | recordModelRequest request generation callId payload units counting =>
    obtain ⟨_, run, rfl⟩ := responding_ok.mp h
    obtain ⟨_, _, _, _, _, _, _, _, ⟨_, _, rfl⟩ | ⟨_, _, rfl⟩⟩ := recordModelRequest_ok run <;> rfl
  | recordModelResponse request generation callId response =>
    obtain ⟨_, run, rfl⟩ := responding_ok.mp h
    obtain ⟨_, _, _, _, _, _, _, ⟨_, _, rfl⟩ | ⟨_, rfl⟩⟩ := recordModelResponse_ok run <;> rfl
  | applyRetention cutoff planHash =>
    obtain ⟨_, run, rfl⟩ := responding_ok.mp h
    obtain ⟨before, _, _, _, rfl⟩ := applyRetention_ok run
    exact queries_of_messages (congrArg Tables.messages (retireAll_tables _ _ db).1)
  | turn request =>
    obtain ⟨turn, run, rfl⟩ := responding_ok.mp h
    obtain ⟨found, rfl⟩ := read_ok.mp run
    rw [show Response.creation (.ok (.turn turn)) = [] from Turn.creation_nil (turn_created found)]
    rfl
  | _ =>
    obtain ⟨_, run, rfl⟩ := responding_ok.mp h
    rw [(read_ok.mp run).2]
    rfl

theorem Follows.queries {created : List Text} (valid : id.valid = true)
    (h : Follows host Step.noAppend created db db') :
    db'.queries id = db.queries id + created.count id := by
  rcases h with ⟨rfl, rfl⟩ | ⟨step, ⟨op, action, other⟩, rfl, rfl⟩
  · rfl
  · unfold Step.next Step.exec
    rw [action]
    show (atomic (op.run host step.clk) db).2.queries id = db.queries id +
      (Response.creation (atomic (op.run host step.clk) db).1).count id
    cases run : atomic (op.run host step.clk) db with
    | mk result db' =>
      cases result with
      | error e =>
        rw [atomic_error run]
        rfl
      | ok out => exact Op.queries other valid (atomic_ok.mp run)

end Queries

/-! ## The invariant -/

/-- A `Run` that may still call back for this request. -/
def asks (id : Text) (call : RunRequest × RunStage) : Bool :=
  match call.2 with
  | .begun turn => turn.requestId == id
  | _ => false

/-- The callbacks of the request that ran and that may still run. -/
def Sys.asked (s : Sys) (id : Text) : Nat := s.completions.count id + s.runs.countP (asks id)

/-- What is created is known from then on, so it is created once, and called back on once. -/
structure CreationInvariant (s : Sys) : Prop where
  keys : JournalKeys s.db.toJournal
  once : ∀ id, s.creations.count id ≤ 1
  known : ∀ id ∈ s.creations, id.valid = true ∧ ∃ print, Known id print s.db
  asked : ∀ id, s.asked id ≤ s.creations.count id

section Invariant

variable {host : Host} {s : Sys}

/-- One transaction that lets no callback run which nothing was created for. -/
theorem CreationInvariant.follows {s' : Sys} {allowed : Step → Prop} {created : List Text}
    (h : CreationInvariant s) (follows : Follows host allowed created s.db s'.db)
    (creations : s'.creations = s.creations ++ created)
    (asked : ∀ id, s'.asked id ≤ s.asked id + created.count id) : CreationInvariant s' := by
  have stable : ∀ id, (∃ print, Known id print s.db) → ∃ print, Known id print s'.db :=
    fun id ⟨print, known⟩ => ⟨print, follows.known h.keys known⟩
  have later : ∀ id, s'.asked id ≤ s'.creations.count id := by
    intro id
    rw [creations, List.count_append]
    exact le_trans (asked id) (Nat.add_le_add_right (h.asked id) _)
  rcases follows.creation with rfl | ⟨new, rfl, made⟩
  · rw [List.append_nil] at creations
    refine ⟨follows.keys h.keys, fun id => by rw [creations]; exact h.once id, ?_, later⟩
    intro id member
    rw [creations] at member
    exact (h.known id member).imp_right (stable id)
  · have fresh : s.creations.count new = 0 := by
      refine List.count_eq_zero.mpr fun member => ?_
      obtain ⟨_, print, known⟩ := h.known new member
      exact made.unknown known
    refine ⟨follows.keys h.keys, fun id => ?_, fun id member => ?_, later⟩
    · rw [creations, List.count_append, List.count_singleton]
      split
      · rename_i same
        rw [← beq_iff_eq.mp same, fresh]
      · exact h.once id
    · rw [creations] at member
      rcases List.mem_append.mp member with old | new
      · exact (h.known id old).imp_right (stable id)
      · rw [List.mem_singleton.mp new]
        exact ⟨made.valid, made.known⟩

/-- A callback that may run after a step of a `Run` could before, or its turn was just created. -/
theorem runMove_asked (host : Host) (clk : Clock) (cancelled : Bool) (answer : Option Reply)
    (r : RunRequest) (db : Db) (stage : RunStage) (id : Text) :
    (runMove host clk cancelled answer r db stage).completions.count id +
        (asks id (r, (runMove host clk cancelled answer r db stage).stage)).toNat ≤
      (asks id (r, stage)).toNat +
        (runMove host clk cancelled answer r db stage).creations.count id := by
  cases stage with
  | entered =>
    simp only [runMove, enterRun]
    split
    · exact Nat.zero_le _
    split
    · exact Nat.zero_le _
    split
    · exact Nat.zero_le _
    · rename_i turn db' run
      split
      · exact Nat.zero_le _
      split
      · exact Nat.zero_le _
      · rename_i created
        have one : turn.creation = [turn.requestId] := by
          unfold Turn.creation
          rw [if_pos (by simpa using created)]
        rw [one, List.count_singleton]
        simp only [asks, List.count_nil, Nat.zero_add, Bool.toNat_false]
        cases turn.requestId == id <;> exact le_refl _
  | begun turn =>
    have own : ∀ reply, (completeRun reply turn db).completions = [turn.requestId] := by
      intro reply
      cases reply <;> rfl
    have spent : ∀ reply, asks id (r, (completeRun reply turn db).stage) = false := by
      intro reply
      cases reply <;> rfl
    simp only [runMove]
    rw [own, spent, List.count_singleton]
    simp only [asks, Bool.toNat_false, Nat.add_zero]
    cases turn.requestId == id <;> exact Nat.le_add_right _ _
  | replied turn reply =>
    simp only [runMove, commitRun]
    split
    · exact Nat.zero_le _
    split <;> exact Nat.zero_le _
  | returned outcome => exact Nat.zero_le _

theorem asked_afterRun {k : Nat} {r : RunRequest} {stage : RunStage}
    (here : s.runs[k]? = some (r, stage)) (m : RunMove) (id : Text) :
    (s.afterRun k r m).asked id + (asks id (r, stage)).toNat =
      s.asked id + (asks id (r, m.stage)).toNat + m.completions.count id := by
  have moved := Table.countP_set_add (asks id) (r, m.stage) here
  simp only [Sys.asked, Sys.afterRun, List.count_append]
  omega

/-- An event that writes no message but a turn's own. -/
def Event.noAppend : Event → Prop
  | .transaction step => step.noAppend
  | _ => True

/-- Every event makes one transaction or none. -/
theorem Sys.next_follows (event : Event) (keys : JournalKeys s.db.toJournal) (allowed : Step → Prop)
    (own : ∀ step, Step.noAppend step → allowed step)
    (given : ∀ step, event = .transaction step → allowed step) :
    ∃ created, (s.next host event).creations = s.creations ++ created ∧
      Follows host allowed created s.db (s.next host event).db := by
  have none_ : s.creations = s.creations ++ [] := (List.append_nil _).symm
  cases event with
  | transaction step => exact ⟨_, rfl, .of_step (given step rfl) s.db⟩
  | enterTool r => exact ⟨[], none_, .same s.db⟩
  | tool k clk answer =>
    cases here : s.tools[k]? with
    | none =>
      simp only [Sys.next, here]
      exact ⟨[], none_, .same s.db⟩
    | some call =>
      simp only [Sys.next, here]
      exact ⟨[], none_, (toolMove_spec keys call.2).db.mono own⟩
  | enterRun r => exact ⟨[], none_, .same s.db⟩
  | run k clk cancelled answer =>
    cases here : s.runs[k]? with
    | none =>
      simp only [Sys.next, here]
      exact ⟨[], none_, .same s.db⟩
    | some call =>
      simp only [Sys.next, here]
      exact ⟨_, rfl, (runMove_follows host clk cancelled answer call.1 s.db call.2).mono own⟩

theorem Sys.next_asked (event : Event) {created : List Text}
    (creations : (s.next host event).creations = s.creations ++ created) (id : Text) :
    (s.next host event).asked id ≤ s.asked id + created.count id := by
  cases event with
  | transaction step => exact Nat.le_add_right _ _
  | enterTool r => exact Nat.le_add_right _ _
  | tool k clk answer =>
    simp only [Sys.next]
    split <;> exact Nat.le_add_right _ _
  | enterRun r =>
    show s.completions.count id + (s.runs ++ [(r, RunStage.entered)]).countP (asks id) ≤ _
    rw [List.countP_append]
    exact Nat.le_add_right _ _
  | run k clk cancelled answer =>
    cases here : s.runs[k]? with
    | none =>
      simp only [Sys.next, here]
      exact Nat.le_add_right _ _
    | some call =>
      simp only [Sys.next, here] at creations ⊢
      have moved := asked_afterRun here (runMove host clk cancelled answer call.1 s.db call.2) id
      have spent := runMove_asked host clk cancelled answer call.1 s.db call.2 id
      rw [List.append_cancel_left creations] at spent
      omega

theorem CreationInvariant.next (event : Event) (h : CreationInvariant s) :
    CreationInvariant (s.next host event) := by
  obtain ⟨created, creations, follows⟩ := @Sys.next_follows host s event h.keys (fun _ => True)
    (fun _ _ => trivial) fun _ _ => trivial
  exact h.follows follows creations (s.next_asked event creations)

end Invariant

/-! ## The property -/

/-- The fingerprint of the first `Begin` binds: whenever one has answered, whatever happens after
    it, a `Begin` for the same identifier with another fingerprint is a conflict and changes
    nothing. -/
def Binds (host : Host) (db : Db) : Prop :=
  ∀ clk input custom r c out db', normalizeRequest input custom = .ok (r, c) →
    begin host clk input custom db = .ok (out, db') →
    ∀ (s : Sys) (events : List Event), s.db = db' →
    ∀ clk' input' custom' r' c', normalizeRequest input' custom' = .ok (r', c') →
      r'.requestId = r.requestId → fingerprint host r'.toJson ≠ fingerprint host r.toJson →
      ∃ message, atomic (begin host clk' input' custom') (runEvents host s events).db =
        (.error (.problem .conflict message), (runEvents host s events).db)

/-- What a request gets from a run of events that starts on the database `start`. -/
structure CreationOnce (host : Host) (start : Db) (events : List Event) (id : Text) : Prop where
  created : (runEvents host { db := start } events).creations.count id ≤ 1
  called : (runEvents host { db := start } events).completions.count id ≤ 1
  binds : Binds host (runEvents host { db := start } events).db
  query : (∀ event ∈ events, event.noAppend) →
    id ∈ (runEvents host { db := start } events).creations →
    (runEvents host { db := start } events).db.queries id = start.queries id + 1

theorem CreationInvariant.start {db : Db} (keys : JournalKeys db.toJournal) :
    CreationInvariant { db := db } :=
  ⟨keys, fun _ => Nat.zero_le _, nofun, fun _ => Nat.zero_le _⟩

section Runs

variable {host : Host}

/-- A known request stays known over any events. -/
theorem runEvents_known {id print : Text} {s : Sys} (events : List Event)
    (keys : JournalKeys s.db.toJournal) (known : Known id print s.db) :
    JournalKeys (runEvents host s events).db.toJournal ∧
      Known id print (runEvents host s events).db := by
  have every : ∀ (s : Sys) (event : Event), True →
      (JournalKeys s.db.toJournal ∧ Known id print s.db) →
      JournalKeys (s.next host event).db.toJournal ∧ Known id print (s.next host event).db := by
    intro s event _ ⟨keys, known⟩
    obtain ⟨created, _, follows⟩ := @Sys.next_follows host s event keys (fun _ => True)
      (fun _ _ => trivial) fun _ _ => trivial
    exact ⟨follows.keys keys, follows.known keys known⟩
  exact runEvents_inv (P := fun s => JournalKeys s.db.toJournal ∧ Known id print s.db) every
    (fun _ _ => trivial) ⟨keys, known⟩

theorem binds_of_keys {db : Db} (keys : JournalKeys db.toJournal) : Binds host db := by
  intro clk input custom r c out db' normal answered s events same clk' input' custom' r' c' normal'
    own other
  have keys' : JournalKeys s.db.toJournal := by
    have step := @Step.keys host ⟨clk, .engine (.begin input custom)⟩ db keys
    have next := @exec_of_atomic _ host clk (.begin input custom) .turn _ rfl db
    rw [same]
    rw [Step.next, next, atomic_ok.mpr answered] at step
    exact step
  have known : Known r.requestId (fingerprint host r.toJson) s.db := by
    rw [same]
    exact begin_answers normal answered
  obtain ⟨keys'', known'⟩ := @runEvents_known host _ _ s events keys' known
  rw [← own] at known'
  obtain ⟨message, conflict⟩ := begin_conflict clk' keys'' normal' known' other
  exact ⟨message, atomic_of_error conflict⟩

/-- Over events that append nothing else, a request has one query more for each creation. -/
theorem runEvents_queries {id : Text} (valid : id.valid = true) (base : Nat) {s : Sys}
    {events : List Event} (quiet : ∀ event ∈ events, Event.noAppend event)
    (keys : JournalKeys s.db.toJournal) (start : s.db.queries id = base + s.creations.count id) :
    (runEvents host s events).db.queries id =
      base + (runEvents host s events).creations.count id := by
  have every : ∀ (s : Sys) (event : Event), event.noAppend →
      (JournalKeys s.db.toJournal ∧ s.db.queries id = base + s.creations.count id) →
      JournalKeys (s.next host event).db.toJournal ∧
        (s.next host event).db.queries id = base + (s.next host event).creations.count id := by
    intro s event quiet ⟨keys, same⟩
    obtain ⟨created, creations, follows⟩ := @Sys.next_follows host s event keys Step.noAppend
      (fun _ own => own) fun step given => by rw [given] at quiet; exact quiet
    refine ⟨follows.keys keys, ?_⟩
    rw [follows.queries valid, creations, List.count_append, same, Nat.add_assoc]
  exact (runEvents_inv (P := fun s => JournalKeys s.db.toJournal ∧
    s.db.queries id = base + s.creations.count id) every quiet ⟨keys, start⟩).2

end Runs

/-- **At most one turn.** On any database a run led to, whatever happens from then on: a request is
    created and called back on at most once, its first fingerprint binds for ever, and with its
    turn exactly one query of it is written. -/
theorem creation_at_most_once (host : Host) (before : List Step) (events : List Event)
    (id : Text) : CreationOnce host (runSteps host .empty before) events id := by
  have keys : JournalKeys (runSteps host .empty before).toJournal :=
    runSteps_keys before JournalKeys.empty
  have every : ∀ (s : Sys) (event : Event), True → CreationInvariant s →
      CreationInvariant (s.next host event) := fun _ event _ inv => inv.next event
  have inv : CreationInvariant (runEvents host { db := runSteps host .empty before } events) :=
    runEvents_inv every (fun _ _ => trivial) (.start keys)
  refine ⟨inv.once id, ?_, binds_of_keys inv.keys, fun quiet member => ?_⟩
  · exact le_trans (Nat.le_add_right _ _) (le_trans (inv.asked id) (inv.once id))
  · obtain ⟨valid, _⟩ := inv.known id member
    have one : (runEvents host { db := runSteps host .empty before } events).creations.count id = 1 :=
      Nat.le_antisymm (inv.once id) (List.count_pos_iff.mpr member)
    rw [runEvents_queries valid ((runSteps host .empty before).queries id) quiet keys rfl, one]

end Cmpath
