import Cmpath.Journal.Keys

/-!
# Invariants of the journal

What holds of the journal in every database the engine alone reaches (`JournalInvariant`): the keys,
the evidence of completed calls, the calls of committed turns, the budget of recorded requests.
-/

namespace Cmpath
open Lib Lib.Txn

/-! ## Evidence stays -/

/-- Messages are added under new identifiers and none is touched. -/
structure Grows (a b : Db) : Prop where
  messages : ∃ new : List MessageRow, b.messages = a.messages ++ new ∧
    ∀ m ∈ new, a.sequence.messages < m.id ∧ m.id ≤ b.sequence.messages
  sequence : a.sequence.messages ≤ b.sequence.messages

namespace Grows

theorem refl (db : Db) : Grows db db := ⟨⟨[], by simp, by simp⟩, le_refl _⟩

theorem trans (a b c : Db) (first : Grows a b) (second : Grows b c) : Grows a c := by
  obtain ⟨⟨new, added, ids⟩, up⟩ := first
  obtain ⟨⟨later, added', ids'⟩, up'⟩ := second
  refine ⟨⟨new ++ later, by rw [added', added, List.append_assoc], ?_⟩, by omega⟩
  intro m member
  rcases List.mem_append.mp member with member | member
  · have := ids m member
    omega
  · have := ids' m member
    omega

theorem of_same {a b : Db} (messages : b.messages = a.messages)
    (sequence : b.sequence.messages = a.sequence.messages) : Grows a b :=
  ⟨⟨[], by simp [messages], by simp⟩, by rw [sequence]⟩

theorem of_write {w : Write} {db : Db} (kind : w.Engine) (legal : w.Legal db) :
    Grows db (w.apply db) := by
  cases w with
  | insertMessage new =>
    obtain ⟨id, _⟩ := legal
    refine ⟨⟨[new], rfl, ?_⟩, ?_⟩
    · intro m member
      rw [List.mem_singleton.mp member, id]
      exact ⟨by omega, by rw [← id]; exact le_refl _⟩
    · show db.sequence.messages ≤ new.id
      omega
  | replaceMessage | deleteMessages | deleteTasks | replaceFact | deleteFacts | replaceDependency
  | deleteDependencies | replaceAlias | deleteAliases => exact kind.elim
  | _ => exact .of_same rfl rfl

theorem of_based {a b : Db} (h : Based Write.Engine a b) : Grows a b := by
  obtain ⟨mid, evolves, tables, _, _⟩ := h
  have first : Grows a mid :=
    evolves.rel refl trans fun w db kind legal => of_write kind legal
  exact trans _ _ _ first (of_same (congrArg Tables.messages tables)
    (congrArg (fun t : Tables => t.sequence.messages) tables))

/-- A message that was there is there. -/
theorem message? {a b : Db} (h : Grows a b) {id : Int} {m : MessageRow}
    (found : a.message? id = some m) : b.message? id = some m := by
  obtain ⟨new, added, _⟩ := h.messages
  unfold Db.message? at found ⊢
  rw [added, List.find?_append, found]
  rfl

end Grows

/-! ## The invariant -/

/-- What the journal says about the rows it refers to. -/
structure JournalInvariant (db : Db) : Prop where
  keys : JournalKeys db.toJournal
  messageIds : ∀ m ∈ db.messages, m.id ≤ db.sequence.messages
  /-- The evidence of a completed call is a message of the turn's task with exactly the recorded
      result. -/
  evidence : ∀ c ∈ db.toolCalls, c.status = .completed →
    ∀ t ∈ db.turns, t.requestId = c.requestId →
      ∃ e j m, c.evidenceId = some e ∧ c.resultJson = some j ∧ db.message? e = some m ∧
        m.taskId = t.taskId ∧ m.content = j.marshal
  /-- A call without a confirmed result records none. -/
  unset : ∀ c ∈ db.toolCalls, c.status = .started → c.resultJson = none ∧ c.evidenceId = none
  /-- A committed turn has no started tool. -/
  settled : ∀ t ∈ db.turns, t.status = .committed →
    ∀ c ∈ db.toolCalls, c.requestId = t.requestId → c.status = .completed
  /-- A recorded request fits the allowance of its turn's package. -/
  budget : ∀ m ∈ db.modelCalls, ∀ t ∈ db.turns, t.requestId = m.requestId →
    m.units ≤ (Package.ofJson t.packageJson).inputAllowance

/-- The record of a turn: what no operation changes. -/
def TurnRow.sameRecord (t u : TurnRow) : Prop :=
  u.requestId = t.requestId ∧ u.taskId = t.taskId ∧ u.fingerprint = t.fingerprint ∧
    u.requestJson = t.requestJson ∧ u.packageJson = t.packageJson ∧
    u.taskRevision = t.taskRevision

theorem TurnRow.sameRecord_refl (t : TurnRow) : t.sameRecord t := ⟨rfl, rfl, rfl, rfl, rfl, rfl⟩

theorem TurnRow.sameRecord_trans {t u v : TurnRow} (first : t.sameRecord u)
    (second : u.sameRecord v) : t.sameRecord v := by
  obtain ⟨id, task, print, request, payload, revision⟩ := first
  obtain ⟨id', task', print', request', payload', revision'⟩ := second
  exact ⟨id'.trans id, task'.trans task, print'.trans print, request'.trans request,
    payload'.trans payload, revision'.trans revision⟩

section Step

variable {host : Host} {kind : Kind} {db db' : Db}

/-- The rows retention leaves are rows from before, of turns that were no candidates. -/
theorem retireAll_journal (keys : JournalKeys db.toJournal) (retiredAt : Stamp)
    (cutoff : Instant) :
    (db.retireAll retiredAt (db.candidateIds cutoff)).toJournal =
      { turns := Table.delete ((db.candidateIds cutoff).contains ·.requestId) db.turns
        toolCalls := Table.delete ((db.candidateIds cutoff).contains ·.requestId) db.toolCalls
        modelCalls := Table.delete ((db.candidateIds cutoff).contains ·.requestId) db.modelCalls
        modelResponses :=
          Table.delete ((db.candidateIds cutoff).contains ·.requestId) db.modelResponses
        turnBasis := Table.delete ((db.candidateIds cutoff).contains ·.requestId) db.turnBasis
        turnProvenance :=
          Table.delete ((db.candidateIds cutoff).contains ·.requestId) db.turnProvenance
        actionLeases := Table.delete ((db.candidateIds cutoff).contains ·.requestId) db.actionLeases
        retiredTurns := db.retiredTurns ++
          (db.candidateIds cutoff).flatMap (db.newTombstones retiredAt) } := by
  rw [retireAll_eq retiredAt db (keys.candidateIds_nodup cutoff)]
  rfl

/-- Every turn afterwards is a turn from before with the same record, or was begun just now, on a
    task that is there. -/
theorem Change.turn_origin (c : Change host kind db db') (keys : JournalKeys db.toJournal)
    {u : TurnRow} (member : u ∈ db'.turns) :
    (∃ t ∈ db.turns, t.sameRecord u) ∨
      (db.turn? u.requestId = none ∧ u.status = .pending ∧ (db.task? u.taskId).isSome) := by
  cases c with
  | additive evolves =>
    rw [congrArg Journal.turns evolves.journal] at member
    exact .inl ⟨u, member, u.sameRecord_refl⟩
  | begun clk r c row payload basis input custom normal begun =>
    rw [congrArg Journal.turns begun.journal] at member
    rcases List.mem_append.mp member with member | member
    · exact .inl ⟨u, member, u.sameRecord_refl⟩
    · rw [List.mem_singleton.mp member]
      exact .inr ⟨begun.unknown, rfl, Option.isSome_of_eq_some begun.task⟩
  | recovered now id t row live pending task revision =>
    obtain ⟨s, source, rfl⟩ := Table.mem_update.mp member
    refine .inl ⟨s, source, ?_⟩
    split <;> exact ⟨rfl, rfl, rfl, rfl, rfl, rfl⟩
  | aborted now id t live pending =>
    obtain ⟨s, source, rfl⟩ := Table.mem_update.mp member
    refine .inl ⟨s, source, ?_⟩
    split <;> exact ⟨rfl, rfl, rfl, rfl, rfl, rfl⟩
  | committed clk id generation reply t row facts snapshot edges committed =>
    rw [congrArg Journal.turns committed.journal] at member
    obtain ⟨s, source, rfl⟩ := Table.mem_update.mp member
    refine .inl ⟨s, source, ?_⟩
    split <;> exact ⟨rfl, rfl, rfl, rfl, rfl, rfl⟩
  | toolFinished clk id callId raw t call live pending known started finished =>
    obtain ⟨_, _, journal⟩ := finished.journal
    rw [congrArg Journal.turns journal] at member
    exact .inl ⟨u, member, u.sameRecord_refl⟩
  | retired retiredAt cutoff =>
    rw [congrArg Journal.turns (retireAll_journal keys retiredAt cutoff)] at member
    exact .inl ⟨u, (Table.mem_delete.mp member).1, u.sameRecord_refl⟩
  | _ => exact .inl ⟨u, member, u.sameRecord_refl⟩

/-- A turn afterwards that shares an identifier with a row from before is that row's turn. -/
theorem Change.turn_task (c : Change host kind db db') (keys : JournalKeys db.toJournal)
    {t u : TurnRow} (member : u ∈ db'.turns) (before : t ∈ db.turns)
    (same : t.requestId = u.requestId) : t.sameRecord u := by
  rcases c.turn_origin keys member with ⟨s, source, record⟩ | ⟨unknown, _⟩
  · have : t = s := keys.turn_eq before source (same.trans record.1)
    rw [this]
    exact record
  · exact absurd same (turn?_none unknown t before)

/-- A new message is found under its identifier. -/
theorem message?_insert (ids : ∀ m ∈ db.messages, m.id ≤ db.sequence.messages) {new : MessageRow}
    (id : new.id = db.sequence.messages + 1) :
    (db.insertMessage new).message? (db.sequence.messages + 1) = some new := by
  show (db.messages ++ [new]).find? _ = some new
  have fresh : db.messages.find? (·.id == db.sequence.messages + 1) = none := by
    rw [List.find?_eq_none]
    intro m member
    have := ids m member
    simp only [beq_iff_eq]
    omega
  rw [List.find?_append, fresh]
  simp [id]

/-- A completed call afterwards was completed before, or has just got its evidence. -/
theorem Change.tool_origin (c : Change host kind db db') (h : JournalInvariant db)
    {u : ToolRow} (member : u ∈ db'.toolCalls) :
    u ∈ db.toolCalls ∨ (u.status = .started ∧ u.resultJson = none ∧ u.evidenceId = none) ∨
      ∃ d ∈ db.toolCalls, d.status = .started ∧ ∃ raw e, u = d.complete raw e ∧
        ∃ t m, db.turn? u.requestId = some t ∧ db'.message? e = some m ∧ m.taskId = t.taskId ∧
          m.content = raw.marshal := by
  cases c with
  | additive evolves =>
    rw [congrArg Journal.toolCalls evolves.journal] at member
    exact .inl member
  | begun clk r c row payload basis input custom normal begun =>
    rw [congrArg Journal.toolCalls begun.journal] at member
    exact .inl member
  | committed clk id generation reply t row facts snapshot edges committed =>
    rw [congrArg Journal.toolCalls committed.journal] at member
    exact .inl member
  | toolStarted id callId name args t texts live pending unknown fresh =>
    rcases List.mem_append.mp member with member | member
    · exact .inl member
    · rw [List.mem_singleton.mp member]
      exact .inr (.inl ⟨rfl, rfl, rfl⟩)
  | toolFinished clk id callId raw t call live pending known started finished =>
    obtain ⟨_, _, _, _, _, _, _, _, rfl⟩ := finished.taskEpoch
    obtain ⟨d, source, rfl⟩ := Table.mem_update.mp member
    split
    · rename_i hit
      have same : d = call := h.keys.tool_eq known source hit
      refine .inr (.inr ⟨d, source, by rw [same]; exact started, raw, _, rfl, t,
        resultMessage db clk t.taskId call raw, ?_, ?_, rfl, rfl⟩)
      · show db.turn? d.requestId = some t
        rw [same, (tool?_key known).1]
        exact live
      · exact message?_insert h.messageIds rfl
    · exact .inl source
  | retired retiredAt cutoff =>
    rw [congrArg Journal.toolCalls (retireAll_journal h.keys retiredAt cutoff)] at member
    exact .inl (Table.mem_delete.mp member).1
  | _ => exact .inl member

theorem Change.evidence (c : Change host kind db db') (h : JournalInvariant db) :
    ∀ u ∈ db'.toolCalls, u.status = .completed →
      ∀ t ∈ db'.turns, t.requestId = u.requestId →
        ∃ e j m, u.evidenceId = some e ∧ u.resultJson = some j ∧ db'.message? e = some m ∧
          m.taskId = t.taskId ∧ m.content = j.marshal := by
  intro u member completed t live own
  rcases c.tool_origin h member with old | ⟨started, _⟩ | ⟨d, _, _, raw, e, rfl, s, m, found, message,
    task, content⟩
  · obtain ⟨s, source, same⟩ := h.keys.toolTurn u old
    have record := c.turn_task h.keys live source (same.trans own.symm)
    obtain ⟨e, j, m, evidence, result, found, task, content⟩ :=
      h.evidence u old completed s source same
    exact ⟨e, j, m, evidence, result, (Grows.of_based c.based).message? found,
      task.trans record.2.1.symm, content⟩
  · rw [started] at completed
    cases completed
  · have record := c.turn_task h.keys live (turn?_mem found) ((turn?_id found).trans own.symm)
    exact ⟨e, raw, m, rfl, rfl, message, task.trans record.2.1.symm, content⟩

theorem Change.unset (c : Change host kind db db') (h : JournalInvariant db) :
    ∀ u ∈ db'.toolCalls, u.status = .started → u.resultJson = none ∧ u.evidenceId = none := by
  intro u member started
  rcases c.tool_origin h member with old | ⟨_, unset⟩ | ⟨d, _, _, raw, e, rfl, _⟩
  · exact h.unset u old started
  · exact unset
  · cases started

theorem Change.settled (c : Change host kind db db') (h : JournalInvariant db) :
    ∀ t ∈ db'.turns, t.status = .committed →
      ∀ u ∈ db'.toolCalls, u.requestId = t.requestId → u.status = .completed := by
  intro t live committed u member own
  cases c with
  | additive evolves =>
    rw [congrArg Journal.turns evolves.journal] at live
    rw [congrArg Journal.toolCalls evolves.journal] at member
    exact h.settled t live committed u member own
  | begun clk r c row payload basis input custom normal begun =>
    rw [congrArg Journal.turns begun.journal] at live
    rw [congrArg Journal.toolCalls begun.journal] at member
    rcases List.mem_append.mp live with live | live
    · exact h.settled t live committed u member own
    · rw [List.mem_singleton.mp live] at committed
      cases committed
  | recovered now id s row found pending task revision =>
    obtain ⟨v, source, rfl⟩ := Table.mem_update.mp live
    split at committed
    · rename_i hit
      rw [if_pos hit] at own
      exact h.settled v source committed u member own
    · rename_i miss
      rw [if_neg miss] at own
      exact h.settled v source committed u member own
  | aborted now id s found pending =>
    obtain ⟨v, source, rfl⟩ := Table.mem_update.mp live
    split at committed
    · cases committed
    · rename_i miss
      rw [if_neg miss] at own
      exact h.settled v source committed u member own
  | committed clk id generation reply s row facts snapshot edges done =>
    rw [congrArg Journal.turns done.journal] at live
    rw [congrArg Journal.toolCalls done.journal] at member
    obtain ⟨v, source, rfl⟩ := Table.mem_update.mp live
    by_cases hit : (v.requestId == id) = true
    · rw [if_pos hit] at own
      have same : u.requestId = id := own.trans (beq_iff_eq.mp hit)
      cases state : u.status with
      | completed => rfl
      | started => exact absurd state (done.settled u member same)
    · rw [if_neg hit] at own committed
      exact h.settled v source committed u member own
  | toolStarted id callId name args s texts found pending unknown fresh =>
    rcases List.mem_append.mp member with member | member
    · exact h.settled t live committed u member own
    · rw [List.mem_singleton.mp member] at own
      have same := h.keys.turn_eq live (turn?_mem found) (own.symm.trans (turn?_id found).symm)
      rw [same, pending] at committed
      cases committed
  | toolFinished clk id callId raw s call found pending known started finished =>
    obtain ⟨_, _, journal⟩ := finished.journal
    rw [congrArg Journal.turns journal] at live
    rw [congrArg Journal.toolCalls journal] at member
    obtain ⟨d, source, rfl⟩ := Table.mem_update.mp member
    split at own
    · rename_i hit
      rw [if_pos hit]
      rfl
    · rename_i miss
      rw [if_neg miss]
      exact h.settled t live committed d source own
  | retired retiredAt cutoff =>
    rw [congrArg Journal.turns (retireAll_journal h.keys retiredAt cutoff)] at live
    rw [congrArg Journal.toolCalls (retireAll_journal h.keys retiredAt cutoff)] at member
    exact h.settled t (Table.mem_delete.mp live).1 committed u (Table.mem_delete.mp member).1 own
  | _ => exact h.settled t live committed u member own

/-- A model request afterwards is one from before or fits the package it was just checked
    against. -/
theorem Change.call_origin (c : Change host kind db db') (h : JournalInvariant db)
    {m : ModelCallRow} (member : m ∈ db'.modelCalls) :
    m ∈ db.modelCalls ∨ ∃ t, db.turn? m.requestId = some t ∧
      m.units ≤ (Package.ofJson t.packageJson).inputAllowance := by
  cases c with
  | additive evolves =>
    rw [congrArg Journal.modelCalls evolves.journal] at member
    exact .inl member
  | begun clk r c row payload basis input custom normal begun =>
    rw [congrArg Journal.modelCalls begun.journal] at member
    exact .inl member
  | committed clk id generation reply t row facts snapshot edges committed =>
    rw [congrArg Journal.modelCalls committed.journal] at member
    exact .inl member
  | toolFinished clk id callId raw t call live pending known started finished =>
    obtain ⟨_, _, journal⟩ := finished.journal
    rw [congrArg Journal.modelCalls journal] at member
    exact .inl member
  | requested new t texts live pending budget unknown fresh =>
    rcases List.mem_append.mp member with member | member
    · exact .inl member
    · rw [List.mem_singleton.mp member]
      exact .inr ⟨t, live, budget⟩
  | retired retiredAt cutoff =>
    rw [congrArg Journal.modelCalls (retireAll_journal h.keys retiredAt cutoff)] at member
    exact .inl (Table.mem_delete.mp member).1
  | _ => exact .inl member

theorem Change.budget (c : Change host kind db db') (h : JournalInvariant db) :
    ∀ m ∈ db'.modelCalls, ∀ t ∈ db'.turns, t.requestId = m.requestId →
      m.units ≤ (Package.ofJson t.packageJson).inputAllowance := by
  intro m member t live own
  rcases c.call_origin h member with old | ⟨s, found, budget⟩
  · obtain ⟨s, source, same⟩ := h.keys.callTurn m old
    have record := c.turn_task h.keys live source (same.trans own.symm)
    rw [record.2.2.2.2.1]
    exact h.budget m old s source same
  · have record := c.turn_task h.keys live (turn?_mem found) ((turn?_id found).trans own.symm)
    rw [record.2.2.2.2.1]
    exact budget

theorem Change.invariant (c : Change host kind db db') (h : JournalInvariant db) :
    JournalInvariant db' := by
  refine ⟨c.keys h.keys, ?_, c.evidence h, c.unset h, c.settled h, c.budget h⟩
  obtain ⟨new, added, ids⟩ := (Grows.of_based c.based).messages
  have up := (Grows.of_based c.based).sequence
  intro m member
  rw [added] at member
  rcases List.mem_append.mp member with member | member
  · exact le_trans (h.messageIds m member) up
  · exact (ids m member).2

end Step

theorem JournalInvariant.empty : JournalInvariant .empty := by
  refine ⟨JournalKeys.empty, ?_, ?_, ?_, ?_, ?_⟩ <;> simp [Db.empty]

/-- The invariant holds in every database the engine reaches. -/
theorem EngineReachable.invariant {host : Host} {db : Db} (h : EngineReachable host db) :
    JournalInvariant db :=
  h.inv JournalInvariant.empty fun db _ engine inv => (Step.engine_change engine db).invariant inv

end Cmpath
