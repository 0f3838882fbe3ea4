import Cmpath.Agent.Moves

/-!
# At most one dispatch for a model call

A provider may charge for every request it is sent, so a run that may not retry sends a model call only
where no checkpoint of it was there before. The checkpoint is written first (`Requested`); a run that
read the calls of the turn before that is fenced by its generation, since only one run at a time holds a
generation and whoever takes the turn over reads the calls again.
-/

namespace Cmpath
open Lib Lib.Txn

namespace Agent

section Stable

variable {host : Host} {db db' : Db} {id callId : Text}

/-- Nothing takes a checkpoint away but the retirement of its turn. -/
theorem Writes.requested (h : Writes host db db') (keys : JournalKeys db.toJournal)
    (requested : Requested id callId db) : Requested id callId db' := by
  rcases h with rfl | ⟨step, rfl⟩
  · exact requested
  rcases step.change host db with change | evolves
  · rcases requested with ⟨m, member, own, name⟩ | ⟨r, member, own⟩
    · rcases change.request_step keys member with later | ⟨t, _, same, removed⟩
      · exact .inl ⟨m, later, own, name⟩
      · obtain ⟨_, tomb⟩ := removed.tombstone
        exact .inr ⟨_, tomb, same.trans own⟩
    · exact .inr ⟨r, change.retired_step keys member, own⟩
  · unfold Requested
    rw [evolves.journal]
    exact requested

theorem past_mono {generation given : Int} (h : Past id generation db) (le : given ≤ generation) :
    Past id given db := by
  rcases h with ⟨t, member, own, later⟩ | tomb
  · exact .inl ⟨t, member, own, by omega⟩
  · exact .inr tomb

/-- A turn is not past the generation it is pending at. -/
theorem not_past_of_owned {generation : Int} (keys : JournalKeys db.toJournal)
    (owned : Owned id generation db) : ¬ Past id generation db := by
  intro past
  obtain ⟨t, live, _, current⟩ := owned
  exact past.not_current keys (le_refl _) t live current

end Stable

/-! ## What a stage has in hand -/

/-- The work of a stage. -/
def AgentStage.work : AgentStage → Option Work
  | .asking w | .dispatching w _ | .answered w _ | .acting w _ _ | .intended w _ _ _
  | .leased w _ _ _ _ | .executed w _ _ _ _ _ | .committing w _ => some w
  | _ => none

/-- The session of a stage. -/
def AgentStage.session : AgentStage → Option Turn
  | .opened turn => some turn
  | stage => stage.work.map (·.session)

/-- The work of a stage, and the first round whose model call it has still to look at. -/
def AgentStage.ahead : AgentStage → Option (Work × Nat)
  | .asking w => some (w, w.round)
  | stage => stage.work.map fun w => (w, w.round + 1)

theorem session_of_work {stage : AgentStage} {w : Work} (work : stage.work = some w) :
    stage.session = some w.session ∧ ∃ n, stage.ahead = some (w, n) ∧ n ≤ w.round + 1 := by
  cases stage with
  | entered | begun | opened | returned => cases work
  | asking =>
    cases work
    exact ⟨rfl, _, rfl, Nat.le_succ _⟩
  | _ =>
    cases work
    exact ⟨rfl, _, rfl, le_refl _⟩

theorem session_of_ahead {stage : AgentStage} {w : Work} {n : Nat} (ahead : stage.ahead = some (w, n)) :
    stage.session = some w.session := by
  cases stage with
  | entered | begun | opened | returned => cases ahead
  | _ =>
    cases ahead
    rfl

theorem modelCallId_inj {m n : Nat} (same : modelCallId m = modelCallId n) : m = n :=
  Text.ofNat_inj (List.append_cancel_left same)

/-- The run may not retry and is about to dispatch this model call. -/
def ticket (id callId : Text) (call : AgentCall × AgentStage) : Bool :=
  match call.2 with
  | .dispatching w _ =>
      !call.1.retry && w.session.requestId == id && modelCallId w.round == callId
  | _ => false

/-- The dispatches of a model call by runs that may not retry: those that happened, and those about to
    happen. -/
def Agents.spent (s : Agents) (id callId : Text) : Nat :=
  s.dispatches.count ⟨id, callId, false⟩ + s.runs.countP (ticket id callId)

section Onward

variable {w : Work} {stage : AgentStage}

theorem Onward.session (h : Onward w stage) {t : Turn} (has : stage.session = some t) :
    t = w.session := by
  cases h with
  | returned => cases has
  | asking | acting | committing => exact (Option.some.inj has).symm

theorem Onward.ahead (h : Onward w stage) {v : Work} {n : Nat} (has : stage.ahead = some (v, n)) :
    v.session = w.session ∧ v.saved = w.saved ∧ w.round + 1 ≤ n := by
  cases h with
  | returned => cases has
  | asking | acting | committing =>
    cases has
    exact ⟨rfl, rfl, le_refl _⟩

theorem Onward.ticket (h : Onward w stage) (a : AgentCall) (id callId : Text) :
    Agent.ticket id callId (a, stage) = false := by
  cases h <;> rfl

theorem Onward.not_dispatching (h : Onward w stage) (v : Work) (raw : Text) :
    stage ≠ .dispatching v raw := by
  intro same
  cases h <;> cases same

end Onward

/-! ## The invariant -/

/-- Of the runs with one identifier the newest holds the turn, alone; a model call is dispatched after
    its checkpoint, once, and whoever has not seen that checkpoint is fenced. -/
structure DispatchInvariant (s : Agents) : Prop where
  keys : JournalKeys s.db.toJournal
  once : ∀ id callId, s.spent id callId ≤ 1
  sent : ∀ d ∈ s.dispatches, Requested d.requestId d.callId s.db
  ready : ∀ (k : Nat) a w raw, s.runs[k]? = some (a, .dispatching w raw) →
    Requested w.session.requestId (modelCallId w.round) s.db
  own : ∀ (k : Nat) a stage t, s.runs[k]? = some (a, stage) → stage.session = some t →
    t.requestId = a.config.requestId
  owner : ∀ (k : Nat) a stage t, s.runs[k]? = some (a, stage) → stage.session = some t →
    Past t.requestId (t.generation - 1) s.db
  single : ∀ (i j : Nat) a b stage other t u, s.runs[i]? = some (a, stage) →
    s.runs[j]? = some (b, other) → stage.session = some t → other.session = some u →
      t.requestId = u.requestId → t.generation = u.generation → i = j
  /-- A run that would still dispatch a call that was dispatched has lost the turn. -/
  fenced : ∀ (k : Nat) a stage w n m, s.runs[k]? = some (a, stage) → stage.ahead = some (w, n) →
    n ≤ m → (∀ e ∈ w.saved, e.callId ≠ modelCallId m) →
      0 < s.spent w.session.requestId (modelCallId m) → Past w.session.requestId w.session.generation s.db

section Invariant

variable {host : Host} {s : Agents}

theorem DispatchInvariant.empty : DispatchInvariant {} := by
  refine ⟨JournalKeys.empty, fun _ _ => Nat.zero_le _, ?_, ?_, ?_, ?_, ?_, ?_⟩ <;> simp

/-- The runs after a step: the one that moved, and the others as they were. -/
theorem after_run {k : Nat} {a : AgentCall} {m : AgentMove} {j : Nat} {call : AgentCall × AgentStage}
    (here : (s.after k a m).runs[j]? = some call) :
    (j = k ∧ call = (a, m.stage)) ∨ (j ≠ k ∧ s.runs[j]? = some call) := by
  simp only [Agents.after, List.getElem?_set] at here
  by_cases same : k = j
  · rw [if_pos same] at here
    split at here
    · exact .inl ⟨same.symm, (Option.some.inj here).symm⟩
    · cases here
  · rw [if_neg same] at here
    exact .inr ⟨fun eq => same eq.symm, here⟩

/-- The dispatches of a model call after one run moved. -/
theorem spent_after {k : Nat} {a : AgentCall} {stage : AgentStage}
    (here : s.runs[k]? = some (a, stage)) (m : AgentMove) (id callId : Text) :
    (s.after k a m).spent id callId + (ticket id callId (a, stage)).toNat =
      s.spent id callId + (ticket id callId (a, m.stage)).toNat +
        m.dispatches.count ⟨id, callId, false⟩ := by
  have moved := Table.countP_set_add (ticket id callId) (a, m.stage) here
  simp only [Agents.spent, Agents.after, List.count_append]
  omega

/-- A dispatch that happened or may happen has its checkpoint. -/
theorem DispatchInvariant.requested (h : DispatchInvariant s) {id callId : Text}
    (some_ : 0 < s.spent id callId) : Requested id callId s.db := by
  by_cases sent : 0 < s.dispatches.count ⟨id, callId, false⟩
  · exact h.sent _ (List.count_pos_iff.mp sent)
  have waiting : 0 < s.runs.countP (ticket id callId) := by
    unfold Agents.spent at some_
    omega
  obtain ⟨⟨a, stage⟩, member, holds⟩ := List.countP_pos_iff.mp waiting
  obtain ⟨k, here⟩ := List.mem_iff_getElem?.mp member
  cases stage with
  | dispatching w raw =>
    simp only [ticket, Bool.and_eq_true, beq_iff_eq] at holds
    have ready := h.ready k a w raw here
    rw [holds.1.2, holds.2] at ready
    exact ready
  | _ => cases holds

/-- What the step of one run has to give for the invariant to go on: a session that is its own, at a
    generation nobody else holds; checkpoints of what it sends; and that whoever could dispatch a call
    that is spent is fenced. -/
structure Advance (s : Agents) (k : Nat) (a : AgentCall) (m : AgentMove) : Prop where
  session : ∀ t, m.stage.session = some t → t.requestId = a.config.requestId ∧
    Past t.requestId (t.generation - 1) m.db ∧
    ∀ (j : Nat) b other u, j ≠ k → s.runs[j]? = some (b, other) → other.session = some u →
      u.requestId = t.requestId → u.generation ≠ t.generation
  once : ∀ id callId, (s.after k a m).spent id callId ≤ 1
  sent : ∀ d ∈ m.dispatches, Requested d.requestId d.callId m.db
  ready : ∀ w raw, m.stage = .dispatching w raw →
    Requested w.session.requestId (modelCallId w.round) m.db
  fenced : ∀ w n r, m.stage.ahead = some (w, n) → n ≤ r → (∀ e ∈ w.saved, e.callId ≠ modelCallId r) →
    0 < (s.after k a m).spent w.session.requestId (modelCallId r) →
      Past w.session.requestId w.session.generation m.db
  others : ∀ (j : Nat) b other w n r, j ≠ k → s.runs[j]? = some (b, other) →
    other.ahead = some (w, n) → n ≤ r → (∀ e ∈ w.saved, e.callId ≠ modelCallId r) →
      s.spent w.session.requestId (modelCallId r) = 0 →
        0 < (s.after k a m).spent w.session.requestId (modelCallId r) →
          Past w.session.requestId w.session.generation m.db

theorem DispatchInvariant.advance {k : Nat} {a : AgentCall} {m : AgentMove} (h : DispatchInvariant s)
    (writes : Writes host s.db m.db) (step : Advance s k a m) : DispatchInvariant (s.after k a m) := by
  refine ⟨writes.keys h.keys, step.once, ?_, ?_, ?_, ?_, ?_, ?_⟩
  · intro d member
    rcases List.mem_append.mp member with old | new
    · exact writes.requested h.keys (h.sent d old)
    · exact step.sent d new
  · intro j b w raw there
    rcases after_run there with ⟨_, eq⟩ | ⟨_, old⟩
    · exact step.ready w raw (Prod.mk.inj eq).2.symm
    · exact writes.requested h.keys (h.ready j b w raw old)
  · intro j b other t there has
    rcases after_run there with ⟨_, eq⟩ | ⟨_, old⟩
    · cases eq
      exact (step.session t has).1
    · exact h.own j b other t old has
  · intro j b other t there has
    rcases after_run there with ⟨_, eq⟩ | ⟨_, old⟩
    · cases eq
      exact (step.session t has).2.1
    · exact writes.past h.keys (h.owner j b other t old has)
  · intro i j b c first second t u hi hj ht hu sameId sameGen
    rcases after_run hi with ⟨rfl, eq⟩ | ⟨apart, oldi⟩
    · cases eq
      rcases after_run hj with ⟨rfl, _⟩ | ⟨apart, oldj⟩
      · rfl
      · exact absurd sameGen.symm ((step.session t ht).2.2 j c second u apart oldj hu sameId.symm)
    · rcases after_run hj with ⟨rfl, eq⟩ | ⟨_, oldj⟩
      · cases eq
        exact absurd sameGen ((step.session u hu).2.2 i b first t apart oldi ht sameId)
      · exact h.single i j b c first second t u oldi oldj ht hu sameId sameGen
  · intro j b other w n r there has le unseen some_
    rcases after_run there with ⟨_, eq⟩ | ⟨apart, old⟩
    · cases eq
      exact step.fenced w n r has le unseen some_
    · by_cases before : s.spent w.session.requestId (modelCallId r) = 0
      · exact step.others j b other w n r apart old has le unseen before some_
      · exact writes.past h.keys
          (h.fenced j b other w n r old has le unseen (Nat.pos_of_ne_zero before))

/-- A step that takes no turn over and asks for nothing new. -/
structure Quiet (a : AgentCall) (stage : AgentStage) (m : AgentMove) : Prop where
  session : ∀ t, m.stage.session = some t → stage.session = some t
  ahead : ∀ w n, m.stage.ahead = some (w, n) → ∃ v k, stage.ahead = some (v, k) ∧
    v.session = w.session ∧ v.saved = w.saved ∧ k ≤ n
  spent : ∀ id callId, (ticket id callId (a, m.stage)).toNat +
    m.dispatches.count ⟨id, callId, false⟩ ≤ (ticket id callId (a, stage)).toNat
  ready : ∀ w raw, m.stage ≠ .dispatching w raw
  sent : ∀ d ∈ m.dispatches, ∃ w raw, stage = .dispatching w raw ∧
    d.requestId = w.session.requestId ∧ d.callId = modelCallId w.round

section Move

variable {k : Nat} {a : AgentCall} {stage : AgentStage}

/-- A session that a run goes on with is still its own alone. -/
theorem DispatchInvariant.held (h : DispatchInvariant s) (here : s.runs[k]? = some (a, stage))
    {t : Turn} (has : stage.session = some t) {db' : Db} (writes : Writes host s.db db') :
    t.requestId = a.config.requestId ∧ Past t.requestId (t.generation - 1) db' ∧
      ∀ (j : Nat) b other u, j ≠ k → s.runs[j]? = some (b, other) → other.session = some u →
        u.requestId = t.requestId → u.generation ≠ t.generation := by
  refine ⟨h.own k a stage t here has, writes.past h.keys (h.owner k a stage t here has), ?_⟩
  intro j b other u apart there hu sameId sameGen
  exact apart (h.single j k b a other stage u t there here hu has sameId sameGen)

theorem DispatchInvariant.quiet {m : AgentMove} (h : DispatchInvariant s)
    (here : s.runs[k]? = some (a, stage)) (writes : Writes host s.db m.db) (q : Quiet a stage m) :
    DispatchInvariant (s.after k a m) := by
  have less : ∀ id callId, (s.after k a m).spent id callId ≤ s.spent id callId := by
    intro id callId
    have moved := spent_after here m id callId
    have fewer := q.spent id callId
    omega
  refine h.advance writes ⟨?_, fun id callId => le_trans (less id callId) (h.once id callId), ?_, ?_,
    ?_, ?_⟩
  · exact fun t has => h.held here (q.session t has) writes
  · intro d member
    obtain ⟨w, raw, rfl, own, name⟩ := q.sent d member
    rw [own, name]
    exact writes.requested h.keys (h.ready k a w raw here)
  · exact fun w raw eq => absurd eq (q.ready w raw)
  · intro w n r has le unseen some_
    have before := lt_of_lt_of_le some_ (less _ _)
    obtain ⟨v, first, had, session, saved, earlier⟩ := q.ahead w n has
    rw [← session] at before ⊢
    rw [← saved] at unseen
    exact writes.past h.keys
      (h.fenced k a stage v first r here had (le_trans earlier le) unseen before)
  · intro j b other w n r _ _ _ _ _ zero some_
    have := less w.session.requestId (modelCallId r)
    omega

/-- A run takes a turn over at a generation that no run holds. -/
theorem DispatchInvariant.opened {turn : Turn} {db' : Db} (h : DispatchInvariant s)
    (here : s.runs[k]? = some (a, stage)) (writes : Writes host s.db db')
    (idle : ∀ id callId, ticket id callId (a, stage) = false)
    (own : turn.requestId = a.config.requestId) (past : Past turn.requestId (turn.generation - 1) db')
    (free : ∀ (j : Nat) b other t, s.runs[j]? = some (b, other) → other.session = some t →
      t.requestId = turn.requestId → t.generation ≠ turn.generation) :
    DispatchInvariant (s.after k a ⟨.opened turn, db', [], []⟩) := by
  have same : ∀ id callId, (s.after k a ⟨.opened turn, db', [], []⟩).spent id callId =
      s.spent id callId := by
    intro id callId
    have moved := spent_after here ⟨.opened turn, db', [], []⟩ id callId
    rw [idle] at moved
    exact moved
  refine h.advance writes ⟨?_, fun id callId => by rw [same]; exact h.once id callId, ?_, ?_, ?_, ?_⟩
  · intro t has
    cases has
    exact ⟨own, past, fun j b other u _ there => free j b other u there⟩
  · intro d member
    cases member
  · intro w raw eq
    cases eq
  · intro w n r has
    cases has
  · intro j b other w n r _ _ _ _ _ zero some_
    rw [same, zero] at some_
    cases some_

/-- The calls of a turn were read: what a run has still to ask for that was dispatched is fenced, since
    every checkpoint of a turn that is not retired is among the calls. -/
theorem DispatchInvariant.read {turn : Turn} {saved : List ModelCall} {messages : List Json}
    (h : DispatchInvariant s) (here : s.runs[k]? = some (a, .opened turn))
    (live : ∃ t, s.db.turn? a.config.requestId = some t)
    (all : ∀ m ∈ s.db.modelCalls, m.requestId = a.config.requestId → ∃ e ∈ saved, e.callId = m.callId) :
    DispatchInvariant (s.after k a ⟨nextRound a ⟨turn, saved, messages, 0⟩, s.db, [], []⟩) := by
  have onward : Onward ⟨turn, saved, messages, 0⟩ (nextRound a ⟨turn, saved, messages, 0⟩) :=
    nextRound_onward messages
  have writes : Writes plainHost s.db s.db := .inl rfl
  have same : ∀ id callId, (s.after k a ⟨nextRound a ⟨turn, saved, messages, 0⟩, s.db, [], []⟩).spent
      id callId = s.spent id callId := by
    intro id callId
    have moved := spent_after here ⟨nextRound a ⟨turn, saved, messages, 0⟩, s.db, [], []⟩ id callId
    rw [onward.ticket] at moved
    exact moved
  refine h.advance writes ⟨?_, fun id callId => by rw [same]; exact h.once id callId, ?_, ?_, ?_, ?_⟩
  · intro t has
    rw [onward.session has]
    exact h.held here rfl writes
  · intro d member
    cases member
  · exact fun w raw eq => absurd eq (onward.not_dispatching w raw)
  · intro w n r has _ unseen some_
    obtain ⟨session, calls, _⟩ := onward.ahead has
    rw [same, session] at some_
    rw [calls] at unseen
    have own : turn.requestId = a.config.requestId := h.own k a _ turn here rfl
    rcases h.requested some_ with ⟨m, member, id, name⟩ | ⟨tomb, member, id⟩
    · obtain ⟨e, found, callId⟩ := all m member (id.trans own)
      exact absurd (callId.trans name) (unseen e found)
    · obtain ⟨t, found⟩ := live
      have named : tomb.requestId = t.requestId := id.trans (own.trans (turn?_id found).symm)
      exact absurd named (h.keys.apart t (turn?_mem found) tomb member)
  · intro j b other w n r _ _ _ _ _ zero some_
    rw [same, zero] at some_
    cases some_

/-- A checkpoint was written: a run that may not retry gets the only ticket of the call, and from now on
    every other run that could ask for it is fenced. -/
theorem DispatchInvariant.asked {w : Work} {raw : Text} {db' : Db} (h : DispatchInvariant s)
    (here : s.runs[k]? = some (a, .asking w)) (writes : Writes host s.db db')
    (current : Current w.session s.db)
    (requested : Requested w.session.requestId (modelCallId w.round) db')
    (fresh : a.retry = false → ∀ e ∈ w.saved, e.callId ≠ modelCallId w.round) :
    DispatchInvariant (s.after k a ⟨.dispatching w raw, db', [], []⟩) := by
  have moved := spent_after here ⟨.dispatching w raw, db', [], []⟩
  -- a cautious run finds the call unspent: it holds the turn, so it is not fenced
  have unspent : a.retry = false → s.spent w.session.requestId (modelCallId w.round) = 0 := by
    intro cautious
    by_contra some_
    exact not_past_of_owned h.keys current (h.fenced k a _ w w.round w.round here rfl (le_refl _)
      (fresh cautious) (Nat.pos_of_ne_zero some_))
  have before : ∀ id callId, ticket id callId (a, .asking w) = false := fun _ _ => rfl
  have gains : ∀ {id callId}, s.spent id callId < (s.after k a ⟨.dispatching w raw, db', [], []⟩).spent
      id callId → a.retry = false ∧ w.session.requestId = id ∧ modelCallId w.round = callId := by
    intro id callId more
    have count := moved id callId
    rw [before, Bool.toNat_false, List.count_nil] at count
    have holds : ticket id callId (a, .dispatching w raw) = true := by
      by_contra none_
      rw [Bool.not_eq_true] at none_
      simp only [none_, Bool.toNat_false] at count
      omega
    simpa [ticket, and_assoc] using holds
  refine h.advance writes ⟨?_, ?_, ?_, ?_, ?_, ?_⟩
  · intro t has
    exact h.held here has writes
  · intro id callId
    have count := moved id callId
    have bound := Bool.toNat_le (ticket id callId (a, .dispatching w raw))
    rw [before, Bool.toNat_false, List.count_nil] at count
    by_cases more : s.spent id callId < (s.after k a ⟨.dispatching w raw, db', [], []⟩).spent id callId
    · obtain ⟨cautious, rfl, rfl⟩ := gains more
      have zero := unspent cautious
      dsimp only at count
      omega
    · have := h.once id callId
      omega
  · intro d member
    cases member
  · intro v r eq
    cases eq
    exact requested
  · intro v n r has le unseen some_
    cases has
    by_cases old : s.spent w.session.requestId (modelCallId r) = 0
    · obtain ⟨_, _, name⟩ := gains (by rw [old]; exact some_)
      have round := modelCallId_inj name
      omega
    · exact writes.past h.keys (h.fenced k a _ w w.round r here rfl (by omega) unseen
        (Nat.pos_of_ne_zero old))
  · intro j b other v n r apart there has le unseen zero some_
    obtain ⟨_, sameId, _⟩ := gains (by rw [zero]; exact some_)
    have session := session_of_ahead has
    have mine := h.owner k a _ w.session here rfl
    have theirs := h.owner j b other v.session there session
    rw [← sameId] at theirs ⊢
    -- the newest generation is the one the checkpoint was written at
    rcases lt_trichotomy v.session.generation w.session.generation with older | equal | newer
    · exact writes.past h.keys (past_mono mine (by omega))
    · exact absurd (h.single j k b a other _ v.session w.session there here session rfl sameId.symm
        equal) apart
    · exact absurd (past_mono theirs (by omega)) (not_past_of_owned h.keys current)

end Move

section Quiet

variable {a : AgentCall} {stage next : AgentStage} {w : Work} {db' : Db} {executions : List Execution}

/-- A step without a dispatch to a stage without a ticket spends nothing. -/
theorem spends_nothing (none_ : ∀ id callId, ticket id callId (a, next) = false) (id callId : Text) :
    (ticket id callId (a, next)).toNat + List.count ⟨id, callId, false⟩ ([] : List Dispatch) ≤
      (ticket id callId (a, stage)).toNat := by
  rw [none_, List.count_nil]
  exact Nat.zero_le _

theorem Quiet.idle (session : next.session = none) (ahead : next.ahead = none)
    (none_ : ∀ id callId, ticket id callId (a, next) = false)
    (ready : ∀ w raw, next ≠ .dispatching w raw) : Quiet a stage ⟨next, db', [], executions⟩ := by
  refine ⟨fun t has => ?_, fun w n has => ?_, spends_nothing none_, ready, nofun⟩
  · rw [session] at has
    cases has
  · rw [ahead] at has
    cases has

theorem Quiet.returned {outcome : Except AgentError (Option Reply)} :
    Quiet a stage ⟨.returned outcome, db', [], executions⟩ :=
  .idle rfl rfl (fun _ _ => rfl) fun _ _ => AgentStage.noConfusion

/-- The work goes on in the same round, whose model call is behind it. -/
theorem Quiet.same (work : stage.work = some w) (session : next.session = some w.session)
    (ahead : next.ahead = some (w, w.round + 1))
    (none_ : ∀ id callId, ticket id callId (a, next) = false)
    (ready : ∀ v raw, next ≠ .dispatching v raw) : Quiet a stage ⟨next, db', [], executions⟩ := by
  obtain ⟨held, first, had, le⟩ := session_of_work work
  refine ⟨fun t has => ?_, fun v n has => ?_, spends_nothing none_, ready, nofun⟩
  · rw [held, ← session]
    exact has
  · rw [ahead] at has
    cases has
    exact ⟨w, first, had, rfl, rfl, le⟩

theorem Quiet.onward (work : stage.work = some w) (h : Onward w next) :
    Quiet a stage ⟨next, db', [], executions⟩ := by
  obtain ⟨session, first, had, le⟩ := session_of_work work
  refine ⟨fun t has => ?_, fun v n has => ?_, spends_nothing (h.ticket a), h.not_dispatching, nofun⟩
  · rw [h.session has]
    exact session
  · obtain ⟨own, saved, later⟩ := h.ahead has
    exact ⟨w, first, had, own.symm, saved.symm, le_trans le later⟩

/-- A dispatch spends the ticket of its run, if it had one. -/
theorem Quiet.dispatched {raw : Text}
    (answer : (∃ e, next = .returned (.error e)) ∨ ∃ r, next = .answered w r) :
    Quiet a (.dispatching w raw)
      ⟨next, db', [⟨w.session.requestId, modelCallId w.round, a.retry⟩], []⟩ := by
  have spent : ∀ id callId,
      List.count ⟨id, callId, false⟩ [(⟨w.session.requestId, modelCallId w.round, a.retry⟩ : Dispatch)] ≤
        (ticket id callId (a, .dispatching w raw)).toNat := by
    intro id callId
    rw [List.count_singleton]
    split
    · rename_i same
      rw [beq_iff_eq, Dispatch.mk.injEq] at same
      obtain ⟨rfl, rfl, cautious⟩ := same
      simp [ticket, cautious]
    · exact Nat.zero_le _
  have own : ∀ d ∈ [(⟨w.session.requestId, modelCallId w.round, a.retry⟩ : Dispatch)],
      ∃ v r, AgentStage.dispatching w raw = .dispatching v r ∧ d.requestId = v.session.requestId ∧
        d.callId = modelCallId v.round := by
    intro d member
    rw [List.mem_singleton.mp member]
    exact ⟨w, raw, rfl, rfl, rfl⟩
  rcases answer with ⟨e, rfl⟩ | ⟨r, rfl⟩
  · refine ⟨fun t has => ?_, fun v n has => ?_, fun id callId => ?_,
      fun _ _ => AgentStage.noConfusion, own⟩
    · cases has
    · cases has
    rw [show ticket id callId (a, .returned (.error e)) = false from rfl, Bool.toNat_false, Nat.zero_add]
    exact spent id callId
  · refine ⟨fun t has => has, fun v n has => ⟨w, w.round + 1, rfl, ?_⟩, fun id callId => ?_,
      fun _ _ => AgentStage.noConfusion, own⟩
    · cases has
      exact ⟨rfl, rfl, le_refl _⟩
    rw [show ticket id callId (a, .answered w r) = false from rfl, Bool.toNat_false, Nat.zero_add]
    exact spent id callId

end Quiet

theorem DispatchInvariant.move {k : Nat} {a : AgentCall} {stage : AgentStage} {m : AgentMove}
    (h : DispatchInvariant s) (here : s.runs[k]? = some (a, stage))
    (spec : AgentStep host a s.db stage m) : DispatchInvariant (s.after k a m) := by
  have writes := spec.writes
  cases spec with
  | ended => exact h.quiet here writes .returned
  | known turn =>
    exact h.quiet here writes (.idle rfl rfl (fun _ _ => rfl) fun _ _ => AgentStage.noConfusion)
  | @created turn db' _ own first unknown past =>
    refine h.opened here writes (fun _ _ => rfl) own (by rw [first]; exact past) ?_
    intro j b other t there has same _
    have held := h.owner j b other t there has
    rw [same] at held
    exact unknown _ held
  | @recovered before turn db' _ own next current past =>
    have gen : turn.generation - 1 = before.generation := by omega
    refine h.opened here writes (fun _ _ => rfl) own (by rw [gen]; exact past) ?_
    intro j b other t there has same generation
    have held := h.owner j b other t there has
    rw [same, generation, gen] at held
    exact not_past_of_owned h.keys current held
  | read messages live all answered => exact h.read here live all
  | asked raw _ current requested fresh => exact h.asked here writes current requested fresh
  | replayed _ saved next => exact h.quiet here writes (.onward rfl next)
  | sent answer => exact h.quiet here writes (.dispatched answer)
  | recorded _ answered next => exact h.quiet here writes (.onward rfl next)
  | finished next => exact h.quiet here writes (.onward rfl next)
  | repeated _ next => exact h.quiet here writes (.onward rfl next)
  | intended _ _ => exact h.quiet here writes (.same rfl rfl rfl (fun _ _ => rfl) fun _ _ => AgentStage.noConfusion)
  | leased token _ => exact h.quiet here writes (.same rfl rfl rfl (fun _ _ => rfl) fun _ _ => AgentStage.noConfusion)
  | executed answer =>
    rcases answer with ⟨e, rfl⟩ | ⟨r, rfl⟩
    · exact h.quiet here writes .returned
    · exact h.quiet here writes (.same rfl rfl rfl (fun _ _ => rfl) fun _ _ => AgentStage.noConfusion)
  | completed _ next => exact h.quiet here writes (.onward rfl next)

/-- Other writers move the database on. -/
theorem DispatchInvariant.transaction {db' : Db} (h : DispatchInvariant s)
    (writes : Writes host s.db db') : DispatchInvariant { s with db := db' } where
  keys := writes.keys h.keys
  once := h.once
  sent d member := writes.requested h.keys (h.sent d member)
  ready k a w raw here := writes.requested h.keys (h.ready k a w raw here)
  own := h.own
  owner k a stage t here has := writes.past h.keys (h.owner k a stage t here has)
  single := h.single
  fenced k a stage w n r here has le unseen some_ :=
    writes.past h.keys (h.fenced k a stage w n r here has le unseen some_)

/-- A new run has nothing in hand. -/
theorem entered_run {a : AgentCall} {j : Nat} {call : AgentCall × AgentStage}
    (here : (s.runs ++ [(a, .entered)])[j]? = some call) :
    s.runs[j]? = some call ∨ call = (a, .entered) := by
  rcases Nat.lt_or_ge j s.runs.length with old | new
  · rw [List.getElem?_append_left old] at here
    exact .inl here
  · rw [List.getElem?_append_right new] at here
    exact .inr (List.mem_singleton.mp (List.mem_of_getElem? here))

theorem DispatchInvariant.enter (a : AgentCall) (h : DispatchInvariant s) :
    DispatchInvariant { s with runs := s.runs ++ [(a, .entered)] } := by
  have same : ∀ id callId, Agents.spent { s with runs := s.runs ++ [(a, .entered)] } id callId =
      s.spent id callId := by
    intro id callId
    simp [Agents.spent, ticket]
  refine ⟨h.keys, fun id callId => by rw [same]; exact h.once id callId, h.sent, ?_, ?_, ?_, ?_, ?_⟩
  · intro k b w raw here
    rcases entered_run here with old | new
    · exact h.ready k b w raw old
    · cases new
  · intro k b stage t here has
    rcases entered_run here with old | new
    · exact h.own k b stage t old has
    · cases new
      cases has
  · intro k b stage t here has
    rcases entered_run here with old | new
    · exact h.owner k b stage t old has
    · cases new
      cases has
  · intro i j b c first second t u hi hj ht hu
    rcases entered_run hi with oldi | new
    · rcases entered_run hj with oldj | new
      · exact h.single i j b c first second t u oldi oldj ht hu
      · cases new
        cases hu
    · cases new
      cases ht
  · intro k b stage w n r here has le unseen some_
    rw [same] at some_
    rcases entered_run here with old | new
    · exact h.fenced k b stage w n r old has le unseen some_
    · cases new
      cases has

theorem DispatchInvariant.next (event : AgentEvent) (h : DispatchInvariant s) :
    DispatchInvariant (s.next host event) := by
  cases event with
  | transaction step => exact h.transaction (.inr ⟨step, rfl⟩)
  | enter a => exact h.enter a
  | step k world =>
    cases here : s.runs[k]? with
    | none =>
      simp only [Agents.next, here]
      exact h
    | some call =>
      obtain ⟨a, stage⟩ := call
      simp only [Agents.next, here]
      exact h.move here (agentMove_spec world stage)

end Invariant

/-- **At most one dispatch.** Whatever transactions of other writers, runs, steps and crashes there are,
    a model call is dispatched at most once by runs that may not retry, and nothing is dispatched without
    its checkpoint in the journal, where it stays until the turn is retired. -/
theorem dispatch_at_most_once (host : Host) (events : List AgentEvent) :
    (∀ id callId, (runAgents host {} events).dispatches.count ⟨id, callId, false⟩ ≤ 1) ∧
      ∀ d ∈ (runAgents host {} events).dispatches,
        Requested d.requestId d.callId (runAgents host {} events).db := by
  have every : ∀ s event, True → DispatchInvariant s → DispatchInvariant (s.next host event) :=
    fun _ event _ inv => inv.next event
  have inv : DispatchInvariant (runAgents host {} events) :=
    runAgents_inv every (fun _ _ => trivial) .empty
  exact ⟨fun id callId => le_trans (Nat.le_add_right _ _) (inv.once id callId), inv.sent⟩

end Agent

end Cmpath
