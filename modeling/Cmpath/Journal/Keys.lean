import Cmpath.Journal.Change

/-!
# Keys of the journal

`JournalKeys` collects what the constraints of `journal.sql` and the order of the checks in the
engine establish about the journal tables alone: the primary keys, the one pending turn of a task,
live and retired identifiers apart, child rows only of live turns. No writer of the base tables can
disturb it.
-/

namespace Cmpath
open Lib Lib.Txn

/-- The keys and references of the journal tables. -/
structure JournalKeys (j : Journal) : Prop where
  turns : Table.Keyed (·.requestId) j.turns
  retired : Table.Keyed (·.requestId) j.retiredTurns
  tools : Table.Keyed (fun c => (c.requestId, c.callId)) j.toolCalls
  calls : Table.Keyed (fun m => (m.requestId, m.callId)) j.modelCalls
  responses : Table.Keyed (fun r => (r.requestId, r.callId)) j.modelResponses
  /-- A retired identifier has no turn. -/
  apart : ∀ t ∈ j.turns, ∀ r ∈ j.retiredTurns, r.requestId ≠ t.requestId
  /-- A task has at most one pending turn. -/
  onePending : ∀ t ∈ j.turns, ∀ u ∈ j.turns, t.status = .pending → u.status = .pending →
    t.taskId = u.taskId → t = u
  toolTurn : ∀ c ∈ j.toolCalls, ∃ t ∈ j.turns, t.requestId = c.requestId
  callTurn : ∀ m ∈ j.modelCalls, ∃ t ∈ j.turns, t.requestId = m.requestId
  basisTurn : ∀ b ∈ j.turnBasis, ∃ t ∈ j.turns, t.requestId = b.requestId
  provenanceTurn : ∀ p ∈ j.turnProvenance, ∃ t ∈ j.turns, t.requestId = p.requestId
  leaseTurn : ∀ l ∈ j.actionLeases, ∃ t ∈ j.turns, t.requestId = l.requestId
  /-- A response answers a recorded request. -/
  responseCall : ∀ r ∈ j.modelResponses, ∃ m ∈ j.modelCalls,
    m.requestId = r.requestId ∧ m.callId = r.callId

namespace JournalKeys

variable {j : Journal}

theorem empty : JournalKeys {} := by
  refine ⟨?_, ?_, ?_, ?_, ?_, ?_, ?_, ?_, ?_, ?_, ?_, ?_, ?_⟩ <;> simp [Table.Keyed]

/-- Two rows of the turns table with one identifier are one row. -/
theorem turn_eq (h : JournalKeys j) {t u : TurnRow} (ht : t ∈ j.turns) (hu : u ∈ j.turns)
    (same : t.requestId = u.requestId) : t = u :=
  h.turns.eq_of_mem ht hu same

section Turns

variable {p : TurnRow → Bool} {f : TurnRow → TurnRow}

theorem addTurn (h : JournalKeys j) {new : TurnRow} {basis : List BasisRow}
    (fresh : ∀ t ∈ j.turns, t.requestId ≠ new.requestId)
    (unretired : ∀ r ∈ j.retiredTurns, r.requestId ≠ new.requestId)
    (idle : ∀ t ∈ j.turns, t.taskId = new.taskId → t.status ≠ .pending)
    (own : ∀ b ∈ basis, b.requestId = new.requestId) :
    JournalKeys { j with turns := j.turns ++ [new], turnBasis := j.turnBasis ++ basis } := by
  have keep : ∀ {id : Text}, (∃ t ∈ j.turns, t.requestId = id) →
      ∃ t ∈ j.turns ++ [new], t.requestId = id := fun ⟨t, member, same⟩ =>
    ⟨t, List.mem_append_left _ member, same⟩
  refine { h with
    turns := h.turns.append fresh
    apart := ?_, onePending := ?_, toolTurn := fun c m => keep (h.toolTurn c m)
    callTurn := fun c m => keep (h.callTurn c m), basisTurn := ?_
    provenanceTurn := fun c m => keep (h.provenanceTurn c m)
    leaseTurn := fun c m => keep (h.leaseTurn c m) }
  · intro t member r retired
    rcases List.mem_append.mp member with member | member
    · exact h.apart t member r retired
    · rw [List.mem_singleton.mp member]
      exact unretired r retired
  · intro t ht u hu pt pu same
    rcases List.mem_append.mp ht with ht | ht
    · rcases List.mem_append.mp hu with hu | hu
      · exact h.onePending t ht u hu pt pu same
      · rw [List.mem_singleton.mp hu] at same
        exact absurd pt (idle t ht same)
    · rcases List.mem_append.mp hu with hu | hu
      · rw [List.mem_singleton.mp ht] at same
        exact absurd pu (idle u hu same.symm)
      · rw [List.mem_singleton.mp ht, List.mem_singleton.mp hu]
  · intro b member
    rcases List.mem_append.mp member with member | member
    · exact keep (h.basisTurn b member)
    · exact ⟨new, List.mem_append_right _ (List.mem_singleton_self _), (own b member).symm⟩

/-- A turn may move on within its task, to pending only from pending. -/
theorem updateTurn (h : JournalKeys j) (keepId : ∀ t, (f t).requestId = t.requestId)
    (keepTask : ∀ t, (f t).taskId = t.taskId)
    (status : ∀ t ∈ j.turns, p t = true → (f t).status = .pending → t.status = .pending) :
    JournalKeys { j with turns := Table.update p f j.turns } := by
  have origin : ∀ t ∈ Table.update p f j.turns, ∃ s ∈ j.turns, t = (if p s then f s else s) ∧
      t.requestId = s.requestId ∧ t.taskId = s.taskId ∧
        (t.status = .pending → s.status = .pending) := by
    intro t member
    obtain ⟨s, source, rfl⟩ := Table.mem_update.mp member
    refine ⟨s, source, rfl, ?_⟩
    split
    · rename_i hit
      exact ⟨keepId s, keepTask s, status s source hit⟩
    · exact ⟨rfl, rfl, id⟩
  have keep : ∀ {id : Text}, (∃ t ∈ j.turns, t.requestId = id) →
      ∃ t ∈ Table.update p f j.turns, t.requestId = id := by
    rintro id ⟨t, member, same⟩
    refine ⟨if p t then f t else t, Table.mem_update.mpr ⟨t, member, rfl⟩, ?_⟩
    split
    · rw [keepId, same]
    · exact same
  refine { h with
    turns := h.turns.update keepId
    apart := ?_, onePending := ?_, toolTurn := fun c m => keep (h.toolTurn c m)
    callTurn := fun c m => keep (h.callTurn c m), basisTurn := fun c m => keep (h.basisTurn c m)
    provenanceTurn := fun c m => keep (h.provenanceTurn c m)
    leaseTurn := fun c m => keep (h.leaseTurn c m) }
  · intro t member r retired
    obtain ⟨s, source, _, same, _, _⟩ := origin t member
    rw [same]
    exact h.apart s source r retired
  · intro t ht u hu pt pu same
    obtain ⟨s, hs, rfl, _, taskS, pendS⟩ := origin t ht
    obtain ⟨v, hv, rfl, _, taskV, pendV⟩ := origin u hu
    have : s = v := h.onePending s hs v hv (pendS pt) (pendV pu) (by rw [← taskS, ← taskV, same])
    rw [this]

end Turns

theorem addProvenance (h : JournalKeys j) {edges : List ProvenanceRow}
    (own : ∀ p ∈ edges, ∃ t ∈ j.turns, t.requestId = p.requestId) :
    JournalKeys { j with turnProvenance := j.turnProvenance ++ edges } := by
  refine { h with provenanceTurn := ?_ }
  intro p member
  rcases List.mem_append.mp member with member | member
  · exact h.provenanceTurn p member
  · exact own p member

theorem addTool (h : JournalKeys j) {new : ToolRow}
    (fresh : ∀ c ∈ j.toolCalls, (c.requestId, c.callId) ≠ (new.requestId, new.callId))
    (turn : ∃ t ∈ j.turns, t.requestId = new.requestId) :
    JournalKeys { j with toolCalls := j.toolCalls ++ [new] } := by
  refine { h with tools := h.tools.append fresh, toolTurn := ?_ }
  intro c member
  rcases List.mem_append.mp member with member | member
  · exact h.toolTurn c member
  · rw [List.mem_singleton.mp member]
    exact turn

theorem updateTool (h : JournalKeys j) {p : ToolRow → Bool} {f : ToolRow → ToolRow}
    (keep : ∀ c, ((f c).requestId, (f c).callId) = (c.requestId, c.callId)) :
    JournalKeys { j with toolCalls := Table.update p f j.toolCalls } := by
  refine { h with tools := h.tools.update keep, toolTurn := ?_ }
  intro c member
  obtain ⟨d, source, rfl⟩ := Table.mem_update.mp member
  obtain ⟨t, turn, same⟩ := h.toolTurn d source
  refine ⟨t, turn, ?_⟩
  split
  · rw [same]
    exact (Prod.mk.inj (keep d)).1.symm
  · exact same

theorem moveBasis (h : JournalKeys j) (id : Text) (key delta : Int) :
    JournalKeys { j with turnBasis := Cmpath.moveBasis id key delta j.turnBasis } := by
  refine { h with basisTurn := ?_ }
  intro b member
  obtain ⟨d, source, rfl⟩ := Table.mem_update.mp member
  obtain ⟨t, turn, same⟩ := h.basisTurn d source
  refine ⟨t, turn, ?_⟩
  split <;> exact same

theorem addLease (h : JournalKeys j) {new : LeaseRow}
    (turn : ∃ t ∈ j.turns, t.requestId = new.requestId) :
    JournalKeys { j with actionLeases := j.actionLeases ++ [new] } := by
  refine { h with leaseTurn := ?_ }
  intro l member
  rcases List.mem_append.mp member with member | member
  · exact h.leaseTurn l member
  · rw [List.mem_singleton.mp member]
    exact turn

theorem addCall (h : JournalKeys j) {new : ModelCallRow}
    (fresh : ∀ m ∈ j.modelCalls, (m.requestId, m.callId) ≠ (new.requestId, new.callId))
    (turn : ∃ t ∈ j.turns, t.requestId = new.requestId) :
    JournalKeys { j with modelCalls := j.modelCalls ++ [new] } := by
  refine { h with calls := h.calls.append fresh, callTurn := ?_, responseCall := ?_ }
  · intro m member
    rcases List.mem_append.mp member with member | member
    · exact h.callTurn m member
    · rw [List.mem_singleton.mp member]
      exact turn
  · intro r member
    obtain ⟨m, call, same⟩ := h.responseCall r member
    exact ⟨m, List.mem_append_left _ call, same⟩

theorem addResponse (h : JournalKeys j) {new : ModelResponseRow}
    (fresh : ∀ r ∈ j.modelResponses, (r.requestId, r.callId) ≠ (new.requestId, new.callId))
    (call : ∃ m ∈ j.modelCalls, m.requestId = new.requestId ∧ m.callId = new.callId) :
    JournalKeys { j with modelResponses := j.modelResponses ++ [new] } := by
  refine { h with responses := h.responses.append fresh, responseCall := ?_ }
  intro r member
  rcases List.mem_append.mp member with member | member
  · exact h.responseCall r member
  · rw [List.mem_singleton.mp member]
    exact call

/-- Retired turns go with all their rows; their tombstones are new. -/
theorem retire (h : JournalKeys j) {gone : Text → Bool} {tombs : List RetiredRow}
    (keyed : Table.Keyed (·.requestId) tombs) (dead : ∀ r ∈ tombs, gone r.requestId = true)
    (fresh : ∀ r ∈ tombs, ∀ s ∈ j.retiredTurns, s.requestId ≠ r.requestId) :
    JournalKeys
      { turns := Table.delete (gone ·.requestId) j.turns
        toolCalls := Table.delete (gone ·.requestId) j.toolCalls
        modelCalls := Table.delete (gone ·.requestId) j.modelCalls
        modelResponses := Table.delete (gone ·.requestId) j.modelResponses
        turnBasis := Table.delete (gone ·.requestId) j.turnBasis
        turnProvenance := Table.delete (gone ·.requestId) j.turnProvenance
        actionLeases := Table.delete (gone ·.requestId) j.actionLeases
        retiredTurns := j.retiredTurns ++ tombs } := by
  have keep : ∀ {α : Type} {key : α → Text} {rows : List α},
      (∀ c ∈ rows, ∃ t ∈ j.turns, t.requestId = key c) →
      ∀ c ∈ Table.delete (fun c => gone (key c)) rows,
        ∃ t ∈ Table.delete (gone ·.requestId) j.turns, t.requestId = key c := by
    intro α key rows turn c member
    obtain ⟨source, stays⟩ := Table.mem_delete.mp member
    obtain ⟨t, live, same⟩ := turn c source
    exact ⟨t, Table.mem_delete.mpr ⟨live, by rw [same]; exact stays⟩, same⟩
  refine
    { turns := h.turns.delete, tools := h.tools.delete, calls := h.calls.delete
      responses := h.responses.delete, retired := ?_, apart := ?_, onePending := ?_
      toolTurn := keep h.toolTurn, callTurn := keep h.callTurn, basisTurn := keep h.basisTurn
      provenanceTurn := keep h.provenanceTurn, leaseTurn := keep h.leaseTurn, responseCall := ?_ }
  · show ((j.retiredTurns ++ tombs).map _).Nodup
    rw [List.map_append, List.nodup_append]
    refine ⟨h.retired, keyed, ?_⟩
    intro a ha b hb same
    obtain ⟨s, old, rfl⟩ := List.mem_map.mp ha
    obtain ⟨r, new, rfl⟩ := List.mem_map.mp hb
    exact fresh r new s old same
  · intro t member r retired same
    obtain ⟨live, stays⟩ := Table.mem_delete.mp member
    rcases List.mem_append.mp retired with old | new
    · exact h.apart t live r old same
    · rw [← same, dead r new] at stays
      cases stays
  · intro t ht u hu
    exact h.onePending t (Table.mem_delete.mp ht).1 u (Table.mem_delete.mp hu).1
  · intro r member
    obtain ⟨source, stays⟩ := Table.mem_delete.mp member
    obtain ⟨m, call, same, name⟩ := h.responseCall r source
    exact ⟨m, Table.mem_delete.mpr ⟨call, by rw [same]; exact stays⟩, same, name⟩

end JournalKeys

/-! ## Every step keeps the keys -/

theorem turn?_mem {db : Db} {id : Text} {t : TurnRow} (h : db.turn? id = some t) : t ∈ db.turns :=
  List.mem_of_find?_eq_some h

theorem turn?_none {db : Db} {id : Text} (h : db.turn? id = none) :
    ∀ t ∈ db.turns, t.requestId ≠ id := by
  intro t member same
  have := List.find?_eq_none.mp h t member
  simp [same] at this

theorem retired?_none {db : Db} {id : Text} (h : db.retired? id = none) :
    ∀ r ∈ db.retiredTurns, r.requestId ≠ id := by
  intro r member same
  have := List.find?_eq_none.mp h r member
  simp [same] at this

theorem tool?_none {db : Db} {id callId : Text} (h : db.tool? id callId = none) :
    ∀ c ∈ db.toolCalls, (c.requestId, c.callId) ≠ (id, callId) := by
  intro c member same
  have := List.find?_eq_none.mp h c member
  rw [Prod.mk.injEq] at same
  simp [same.1, same.2] at this

theorem modelCall?_none {db : Db} {id callId : Text} (h : db.modelCall? id callId = none) :
    ∀ c ∈ db.modelCalls, (c.requestId, c.callId) ≠ (id, callId) := by
  intro c member same
  have := List.find?_eq_none.mp h c member
  rw [Prod.mk.injEq] at same
  simp [same.1, same.2] at this

theorem modelResponse?_none {db : Db} {id callId : Text} (h : db.modelResponse? id callId = none) :
    ∀ c ∈ db.modelResponses, (c.requestId, c.callId) ≠ (id, callId) := by
  intro c member same
  have := List.find?_eq_none.mp h c member
  rw [Prod.mk.injEq] at same
  simp [same.1, same.2] at this

/-- A pending turn that is found is the one of its identifier, so an update under that
    identifier only touches a pending turn. -/
theorem JournalKeys.pending_of_hit {db : Db} (h : JournalKeys db.toJournal) {id : Text}
    {t u : TurnRow} (live : db.turn? id = some t) (pending : t.status = .pending)
    (member : u ∈ db.turns) (hit : (u.requestId == id) = true) : u.status = .pending := by
  rw [beq_iff_eq] at hit
  have same := h.turn_eq member (turn?_mem live) (hit.trans (turn?_id live).symm)
  rw [same]
  exact pending

/-- An update under the key of a call that is found only touches that call. -/
theorem JournalKeys.tool_eq {db : Db} (h : JournalKeys db.toJournal) {id callId : Text}
    {call c : ToolRow} (known : db.tool? id callId = some call) (member : c ∈ db.toolCalls)
    (hit : (c.requestId == id && c.callId == callId) = true) : c = call := by
  simp only [Bool.and_eq_true, beq_iff_eq] at hit
  have key := tool?_key known
  exact h.tools.eq_of_mem member (List.mem_of_find?_eq_some known)
    (Prod.ext (hit.1.trans key.1.symm) (hit.2.trans key.2.symm))

/-- The candidates of a plan are distinct turns. -/
theorem JournalKeys.candidateIds_nodup {db : Db} (h : JournalKeys db.toJournal)
    (cutoff : Instant) : (db.candidateIds cutoff).Nodup :=
  h.turns.sublist (List.filter_sublist.map _)

theorem JournalKeys.tombstones_keyed {db : Db} {retiredAt : Stamp} {ids : List Text}
    (nodup : ids.Nodup) :
    Table.Keyed (·.requestId) (ids.flatMap (db.newTombstones retiredAt)) := by
  induction ids with
  | nil => exact List.nodup_nil
  | cons id rest ih =>
    obtain ⟨fresh, nodup⟩ := List.nodup_cons.mp nodup
    unfold Table.Keyed
    rw [List.flatMap_cons, List.map_append, List.nodup_append]
    refine ⟨?_, ih nodup, ?_⟩
    · unfold Db.newTombstones
      split <;> simp
    · intro a ha b hb same
      obtain ⟨r, new, rfl⟩ := List.mem_map.mp ha
      obtain ⟨s, later, rfl⟩ := List.mem_map.mp hb
      obtain ⟨other, member, new'⟩ := List.mem_flatMap.mp later
      have : id = other := by
        rw [← newTombstones_requestId new, ← newTombstones_requestId new']
        exact same
      exact fresh (this ▸ member)

theorem mem_tombstones {db : Db} {retiredAt : Stamp} {ids : List Text} {r : RetiredRow}
    (h : r ∈ ids.flatMap (db.newTombstones retiredAt)) :
    r.requestId ∈ ids ∧ db.retired? r.requestId = none ∧
      ∃ t, db.turn? r.requestId = some t ∧ r = t.tombstone retiredAt := by
  obtain ⟨id, member, new⟩ := List.mem_flatMap.mp h
  have same := newTombstones_requestId new
  obtain ⟨t, found, unretired, row⟩ := mem_newTombstones new
  rw [same]
  exact ⟨member, unretired, t, found, row⟩

theorem Change.keys {host : Host} {kind : Kind} {db db' : Db} (c : Change host kind db db')
    (h : JournalKeys db.toJournal) : JournalKeys db'.toJournal := by
  cases c with
  | additive evolves =>
    rw [evolves.journal]
    exact h
  | begun clk r c row payload basis input custom normal begun =>
    rw [begun.journal]
    exact h.addTurn (turn?_none begun.unknown) (retired?_none begun.unretired)
      (fun t member same => begun.idle t member same) begun.captured.own
  | recovered now id t row live pending task revision =>
    exact h.updateTurn (fun _ => rfl) (fun _ => rfl)
      fun u member hit _ => h.pending_of_hit live pending member hit
  | aborted now id t live pending =>
    exact h.updateTurn (fun _ => rfl) (fun _ => rfl)
      fun u member hit _ => h.pending_of_hit live pending member hit
  | committed clk id generation reply t row facts snapshot edges committed =>
    rw [committed.journal]
    have turns := h.updateTurn (p := (·.requestId == id))
      (f := TurnRow.commit (encode reply.toJson) (fingerprint host reply.toJson) (clk.now 1))
      (fun _ => rfl) (fun _ => rfl)
      fun u member hit _ => h.pending_of_hit committed.live committed.pending member hit
    refine turns.addProvenance fun p member => ?_
    refine ⟨_, Table.mem_update.mpr ⟨t, turn?_mem committed.live, rfl⟩, ?_⟩
    rw [committed.own p member]
    have same : t.requestId = id := turn?_id committed.live
    split <;> exact same
  | toolStarted id callId name args t texts live pending unknown fresh =>
    exact h.addTool (tool?_none unknown) ⟨t, turn?_mem live, turn?_id live⟩
  | toolFinished clk id callId raw t call live pending known started finished =>
    obtain ⟨taskDelta, globalDelta, journal⟩ := finished.journal
    rw [journal]
    exact ((h.moveBasis _ _ _).moveBasis _ _ _).updateTool fun _ => rfl
  | leased lease t text live pending token hash =>
    exact h.addLease ⟨t, turn?_mem live, turn?_id live⟩
  | requested new t texts live pending budget unknown fresh =>
    exact h.addCall (modelCall?_none unknown) ⟨t, turn?_mem live, turn?_id live⟩
  | responded new t texts live pending request unknown =>
    refine h.addResponse (modelResponse?_none unknown) ?_
    obtain ⟨m, found⟩ := Option.isSome_iff_exists.mp request
    have key := List.find?_some found
    exact ⟨m, List.mem_of_find?_eq_some found, by simpa using key⟩
  | retired retiredAt cutoff =>
    have nodup := h.candidateIds_nodup cutoff
    rw [retireAll_eq retiredAt db nodup]
    refine h.retire (JournalKeys.tombstones_keyed nodup) (fun r member => ?_)
      fun r member s old same => ?_
    · simpa using (mem_tombstones member).1
    · exact retired?_none (mem_tombstones member).2.1 s old same

/-- No writer of the base tables and no engine operation breaks a key. -/
theorem Step.keys {host : Host} (step : Step) {db : Db} (h : JournalKeys db.toJournal) :
    JournalKeys (step.next host db).toJournal := by
  rcases step.change host db with change | evolves
  · exact change.keys h
  · rw [evolves.journal]
    exact h

/-- The keys hold in every database any run leads to. -/
theorem runSteps_keys {host : Host} (steps : List Step) {db : Db}
    (h : JournalKeys db.toJournal) : JournalKeys (runSteps host db steps).toJournal :=
  have every : ∀ db (step : Step), True → JournalKeys db.toJournal →
      JournalKeys (step.next host db).toJournal := fun _ step _ keys => step.keys keys
  runSteps_inv (P := fun db => JournalKeys db.toJournal) every (fun _ _ => trivial) h

theorem Reachable.keys {host : Host} {db : Db} (h : Reachable host db) :
    JournalKeys db.toJournal := by
  obtain ⟨steps, rfl⟩ := h
  exact runSteps_keys steps JournalKeys.empty

end Cmpath
