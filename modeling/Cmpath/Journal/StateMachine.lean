import Cmpath.Journal.Invariant

/-!
# The turn journal as a state machine

What one engine operation may do to the journal (`JournalStep`): a turn leaves pending once and is
frozen then, a tool call completes once, recorded requests and responses stay as they are, and rows
go only with their whole turn in retention, which leaves its tombstone.
-/

namespace Cmpath
open Lib Lib.Txn

/-! ## The steps -/

/-- The rows of one turn. -/
def Journal.ofTurn (j : Journal) (id : Text) : Journal where
  turns := j.turns.filter (·.requestId == id)
  toolCalls := j.toolCalls.filter (·.requestId == id)
  modelCalls := j.modelCalls.filter (·.requestId == id)
  modelResponses := j.modelResponses.filter (·.requestId == id)
  retiredTurns := j.retiredTurns.filter (·.requestId == id)
  turnBasis := j.turnBasis.filter (·.requestId == id)
  turnProvenance := j.turnProvenance.filter (·.requestId == id)
  actionLeases := j.actionLeases.filter (·.requestId == id)

/-- Retention has taken a terminal turn: of all its rows there is only the tombstone. -/
def Removed (kind : Kind) (t : TurnRow) (db' : Db) : Prop :=
  kind = .retire ∧ t.status ≠ .pending ∧
    ∃ retiredAt, db'.toJournal.ofTurn t.requestId = { retiredTurns := [t.tombstone retiredAt] }

/-- The tombstone it left. -/
theorem Removed.tombstone {kind : Kind} {t : TurnRow} {db' : Db} (h : Removed kind t db') :
    ∃ retiredAt, t.tombstone retiredAt ∈ db'.retiredTurns := by
  obtain ⟨_, _, retiredAt, gone⟩ := h
  have member : t.tombstone retiredAt ∈ (db'.toJournal.ofTurn t.requestId).retiredTurns := by
    rw [gone]
    exact List.mem_singleton_self _
  exact ⟨retiredAt, (List.mem_filter.mp member).1⟩

/-- A turn keeps its record, leaves pending at most once and is fenced once per recovery. -/
structure TurnStep (kind : Kind) (t u : TurnRow) : Prop where
  record : t.sameRecord u
  generation : u.generation = t.generation + if kind = .recover t.requestId then 1 else 0
  terminal : t.status ≠ .pending → u = t

/-- A tool call keeps its intent and completes at most once. -/
structure ToolStep (c d : ToolRow) : Prop where
  intent : d.requestId = c.requestId ∧ d.callId = c.callId ∧ d.name = c.name ∧
    d.argsJson = c.argsJson ∧ d.fingerprint = c.fingerprint
  completed : c.status = .completed → d = c
  result : ∀ j, c.resultJson = some j → d.resultJson = some j
  evidence : ∀ e, c.evidenceId = some e → d.evidenceId = some e

/-- What one operation may do to the journal. -/
structure JournalStep (kind : Kind) (db db' : Db) : Prop where
  turn : ∀ t ∈ db.turns, (∃ u ∈ db'.turns, TurnStep kind t u) ∨ Removed kind t db'
  terminal : ∀ t ∈ db.turns, t.status ≠ .pending →
    db'.toJournal.ofTurn t.requestId = db.toJournal.ofTurn t.requestId ∨ Removed kind t db'
  newTurn : ∀ u ∈ db'.turns, (∃ t ∈ db.turns, TurnStep kind t u) ∨ u.status = .pending
  tool : ∀ c ∈ db.toolCalls, (∃ d ∈ db'.toolCalls, ToolStep c d) ∨
    ∃ t ∈ db.turns, t.requestId = c.requestId ∧ Removed kind t db'
  newTool : ∀ d ∈ db'.toolCalls, (∃ c ∈ db.toolCalls, ToolStep c d) ∨ d.status = .started
  request : ∀ m ∈ db.modelCalls, m ∈ db'.modelCalls ∨
    ∃ t ∈ db.turns, t.requestId = m.requestId ∧ Removed kind t db'
  response : ∀ r ∈ db.modelResponses, r ∈ db'.modelResponses ∨
    ∃ t ∈ db.turns, t.requestId = r.requestId ∧ Removed kind t db'

theorem TurnStep.same {kind : Kind} (t : TurnRow) (other : kind ≠ .recover t.requestId) :
    TurnStep kind t t :=
  ⟨t.sameRecord_refl, by rw [if_neg other, Int.add_zero], fun _ => rfl⟩

theorem ToolStep.same (c : ToolRow) : ToolStep c c :=
  ⟨⟨rfl, rfl, rfl, rfl, rfl⟩, fun _ => rfl, fun _ same => same, fun _ same => same⟩

/-! ## Each table under a change -/

section Step

variable {host : Host} {kind : Kind} {db db' : Db}

/-- An update of another turn. -/
theorem ofTurn_update {j : Journal} {f : TurnRow → TurnRow} {id other : Text}
    (keep : ∀ t, (f t).requestId = t.requestId) (ne : other ≠ id) :
    Journal.ofTurn { j with turns := Table.update (·.requestId == id) f j.turns } other =
      j.ofTurn other := by
  simp only [Journal.ofTurn]
  rw [Table.filter_update_of_disjoint (fun t => by rw [keep t]) fun t _ hit => ?_]
  rw [beq_iff_eq.mp hit]
  simpa using ne

/-- The rows of a turn that is no candidate of the plan. -/
theorem ofTurn_purged {gone : Text → Bool} {tombs : List RetiredRow} {id : Text}
    (stays : gone id = false) (others : ∀ r ∈ tombs, r.requestId ≠ id) :
    Journal.ofTurn { (db.purged gone).toJournal with retiredTurns := db.retiredTurns ++ tombs } id =
      db.toJournal.ofTurn id := by
  have keep {α : Type} (key : α → Text) (rows : List α) :
      (Table.delete (fun r => gone (key r)) rows).filter (key · == id) =
        rows.filter (key · == id) := by
    refine Table.filter_delete_of_disjoint fun r _ hit => ?_
    rw [beq_iff_eq.mp hit]
    exact stays
  have none_ : tombs.filter (·.requestId == id) = [] := by
    rw [List.filter_eq_nil_iff]
    intro r member
    simpa using others r member
  simp only [Journal.ofTurn, Db.purged, keep, List.filter_append, none_, List.append_nil]

/-- The rows of a candidate. -/
theorem ofTurn_gone {gone : Text → Bool} {tombs : List RetiredRow} {id : Text}
    (goes : gone id = true) (fresh : ∀ r ∈ db.retiredTurns, r.requestId ≠ id) :
    Journal.ofTurn { (db.purged gone).toJournal with retiredTurns := db.retiredTurns ++ tombs } id =
      { retiredTurns := tombs.filter (·.requestId == id) } := by
  have empty {α : Type} (key : α → Text) (rows : List α) :
      (Table.delete (fun r => gone (key r)) rows).filter (key · == id) = [] := by
    rw [List.filter_eq_nil_iff]
    intro r member hit
    have := (Table.mem_delete.mp member).2
    rw [beq_iff_eq.mp hit, goes] at this
    cases this
  have none_ : db.retiredTurns.filter (·.requestId == id) = [] := by
    rw [List.filter_eq_nil_iff]
    intro r member
    simpa using fresh r member
  simp only [Journal.ofTurn, Db.purged, empty, List.filter_append, none_, List.nil_append]

/-- Retention takes a turn with all its rows or leaves every one of them. -/
theorem retireAll_turn (keys : JournalKeys db.toJournal) (retiredAt : Stamp) (cutoff : Instant)
    {t : TurnRow} (live : t ∈ db.turns) :
    ((db.candidateIds cutoff).contains t.requestId = false ∧
        (db.retireAll retiredAt (db.candidateIds cutoff)).toJournal.ofTurn t.requestId =
          db.toJournal.ofTurn t.requestId) ∨
      Removed .retire t (db.retireAll retiredAt (db.candidateIds cutoff)) := by
  have nodup := keys.candidateIds_nodup cutoff
  rw [retireAll_eq retiredAt db nodup]
  cases goes : (db.candidateIds cutoff).contains t.requestId with
  | false =>
    refine .inl ⟨rfl, ofTurn_purged goes fun r member same => ?_⟩
    have := (mem_tombstones member).1
    rw [same] at this
    exact absurd (List.contains_iff_mem.mpr this) (by rw [goes]; decide)
  | true =>
    have member := List.contains_iff_mem.mp goes
    obtain ⟨s, candidate, same⟩ := List.mem_map.mp member
    have turn : s = t := keys.turn_eq (List.mem_filter.mp candidate).1 live same
    have terminal := (List.mem_filter.mp candidate).2
    rw [turn] at terminal
    have found : db.turn? t.requestId = some t := keys.turns.find?_eq live
    have unretired : db.retired? t.requestId = none := by
      refine List.find?_eq_none.mpr fun r old hit => ?_
      exact keys.apart t live r old (beq_iff_eq.mp hit)
    have tombs : ((db.candidateIds cutoff).flatMap (db.newTombstones retiredAt)).filter
        (·.requestId == t.requestId) = [t.tombstone retiredAt] := by
      rw [Table.filter_flatMap_of_key (fun _ _ => newTombstones_requestId) nodup member]
      simp only [Db.newTombstones, found, unretired]
    refine .inr ⟨rfl, ?_, retiredAt, ?_⟩
    · intro pending
      simp [Db.candidate, pending] at terminal
    · rw [← tombs]
      exact ofTurn_gone goes (keys.apart t live)

/-- A turn under a recovery. -/
theorem turnStep_recover {id : Text} {now : Stamp} {s : TurnRow} (keys : JournalKeys db.toJournal)
    (found : db.turn? id = some s) (pending : s.status = .pending) {t : TurnRow}
    (live : t ∈ db.turns) : TurnStep (.recover id) t
      (if (t.requestId == id) = true then t.recover now else t) := by
  split
  · rename_i hit
    refine ⟨⟨rfl, rfl, rfl, rfl, rfl, rfl⟩, ?_, fun terminal => ?_⟩
    · rw [if_pos (by rw [beq_iff_eq.mp hit])]
      rfl
    · exact absurd (keys.pending_of_hit found pending live hit) terminal
  · rename_i miss
    refine .same t fun same => miss ?_
    rw [Kind.recover.inj same]
    exact beq_self_eq_true _

/-- A turn that an operation moves out of pending. -/
theorem turnStep_leave {id : Text} {f : TurnRow → TurnRow} {s : TurnRow}
    (keys : JournalKeys db.toJournal) (record : ∀ t : TurnRow, t.sameRecord (f t))
    (generation : ∀ t, (f t).generation = t.generation)
    (found : db.turn? id = some s) (pending : s.status = .pending) {t : TurnRow}
    (live : t ∈ db.turns) :
    TurnStep .other t (if (t.requestId == id) = true then f t else t) := by
  split
  · rename_i hit
    refine ⟨record t, ?_, fun terminal => ?_⟩
    · rw [generation t, if_neg nofun, Int.add_zero]
    · exact absurd (keys.pending_of_hit found pending live hit) terminal
  · exact .same t nofun

/-- What becomes of a turn. -/
theorem Change.turn_step (c : Change host kind db db') (keys : JournalKeys db.toJournal)
    {t : TurnRow} (live : t ∈ db.turns) :
    (∃ u ∈ db'.turns, TurnStep kind t u) ∨ Removed kind t db' := by
  cases c with
  | additive evolves =>
    rw [congrArg Journal.turns evolves.journal]
    exact .inl ⟨t, live, .same t nofun⟩
  | begun clk r c row payload basis input custom normal begun =>
    rw [congrArg Journal.turns begun.journal]
    exact .inl ⟨t, List.mem_append_left _ live, .same t nofun⟩
  | recovered now id s row found pending task revision =>
    exact .inl ⟨_, Table.mem_update.mpr ⟨t, live, rfl⟩, turnStep_recover keys found pending live⟩
  | aborted now id s found pending =>
    exact .inl ⟨_, Table.mem_update.mpr ⟨t, live, rfl⟩,
      turnStep_leave (f := TurnRow.abort now) keys (fun _ => ⟨rfl, rfl, rfl, rfl, rfl, rfl⟩)
        (fun _ => rfl) found pending live⟩
  | committed clk id generation reply s row facts snapshot edges done =>
    rw [congrArg Journal.turns done.journal]
    refine .inl ⟨_, Table.mem_update.mpr ⟨t, live, rfl⟩, turnStep_leave keys ?_ ?_ done.live
      done.pending live⟩
    · exact fun _ => ⟨rfl, rfl, rfl, rfl, rfl, rfl⟩
    · exact fun _ => rfl
  | toolFinished clk id callId raw s call found pending known started finished =>
    obtain ⟨_, _, journal⟩ := finished.journal
    rw [congrArg Journal.turns journal]
    exact .inl ⟨t, live, .same t nofun⟩
  | retired retiredAt cutoff =>
    rcases retireAll_turn keys retiredAt cutoff live with ⟨stays, _⟩ | removed
    · rw [congrArg Journal.turns (retireAll_journal keys retiredAt cutoff)]
      exact .inl ⟨t, Table.mem_delete.mpr ⟨live, stays⟩, .same t nofun⟩
    · exact .inr removed
  | _ => exact .inl ⟨t, live, .same t nofun⟩

/-- Where a turn comes from. -/
theorem Change.new_turn (c : Change host kind db db') (keys : JournalKeys db.toJournal)
    {u : TurnRow} (live : u ∈ db'.turns) :
    (∃ t ∈ db.turns, TurnStep kind t u) ∨ u.status = .pending := by
  rcases c.turn_origin keys live with ⟨t, source, record⟩ | ⟨_, pending, _⟩
  · rcases c.turn_step keys source with ⟨v, member, step⟩ | ⟨_, _, _, gone⟩
    · have : v = u := (c.keys keys).turn_eq member live (step.record.1.trans record.1.symm)
      rw [← this]
      exact .inl ⟨t, source, step⟩
    · have member : u ∈ (db'.toJournal.ofTurn t.requestId).turns :=
        List.mem_filter.mpr ⟨live, beq_iff_eq.mpr record.1⟩
      rw [gone] at member
      cases member
  · exact .inr pending

/-- Another turn than a pending one. -/
theorem JournalKeys.ne_pending (keys : JournalKeys db.toJournal) {id : Text} {s t : TurnRow}
    (found : db.turn? id = some s) (pending : s.status = .pending) (live : t ∈ db.turns)
    (terminal : t.status ≠ .pending) : t.requestId ≠ id := fun same =>
  terminal (keys.pending_of_hit found pending live (beq_iff_eq.mpr same))

/-- The rows of a terminal turn stay as they are until retention takes them. -/
theorem Change.terminal_step (c : Change host kind db db') (keys : JournalKeys db.toJournal)
    {t : TurnRow} (live : t ∈ db.turns) (terminal : t.status ≠ .pending) :
    db'.toJournal.ofTurn t.requestId = db.toJournal.ofTurn t.requestId ∨ Removed kind t db' := by
  cases c with
  | additive evolves =>
    rw [evolves.journal]
    exact .inl rfl
  | begun clk r c row payload basis input custom normal begun =>
    have other : r.requestId ≠ t.requestId := (turn?_none begun.unknown t live).symm
    rw [begun.journal]
    simp only [Journal.ofTurn]
    rw [Table.filter_append_of_disjoint fun u member => ?_,
      Table.filter_append_of_disjoint fun b member => ?_]
    · exact .inl rfl
    · rw [begun.captured.own b member]
      simpa using other
    · rw [List.mem_singleton.mp member]
      simpa [newTurn] using other
  | recovered now id s row found pending task revision =>
    exact .inl (ofTurn_update (fun _ => rfl) (keys.ne_pending found pending live terminal))
  | aborted now id s found pending =>
    exact .inl (ofTurn_update (fun _ => rfl) (keys.ne_pending found pending live terminal))
  | committed clk id generation reply s row facts snapshot edges done =>
    have other := keys.ne_pending done.live done.pending live terminal
    have edge : ∀ p ∈ edges, (p.requestId == t.requestId) = false := by
      intro p member
      rw [done.own p member]
      simpa using Ne.symm other
    have turns : (Table.update (·.requestId == id) (TurnRow.commit (encode reply.toJson)
        (fingerprint host reply.toJson) (clk.now 1)) db.turns).filter
          (·.requestId == t.requestId) = db.turns.filter (·.requestId == t.requestId) :=
      congrArg Journal.turns (ofTurn_update (j := db.toJournal)
        (f := TurnRow.commit (encode reply.toJson) (fingerprint host reply.toJson) (clk.now 1))
        (fun _ => rfl) other)
    rw [done.journal]
    simp only [Journal.ofTurn]
    rw [turns, Table.filter_append_of_disjoint edge]
    exact .inl rfl
  | toolStarted id callId name args s texts found pending unknown fresh =>
    have other := keys.ne_pending found pending live terminal
    simp only [Journal.ofTurn]
    rw [Table.filter_append_of_disjoint fun p member => ?_]
    · exact .inl rfl
    · rw [List.mem_singleton.mp member]
      simpa [newTool] using Ne.symm other
  | toolFinished clk id callId raw s call found pending known started finished =>
    have other := keys.ne_pending found pending live terminal
    obtain ⟨_, _, journal⟩ := finished.journal
    have calls (rows : List ToolRow) : ∀ c ∈ rows, (c.requestId == t.requestId) = true →
        (c.requestId == id && c.callId == callId) = false := by
      intro c _ hit
      rw [beq_iff_eq.mp hit]
      simp [other]
    have basis (key delta : Int) (rows : List BasisRow) :
        (moveBasis id key delta rows).filter (·.requestId == t.requestId) =
          rows.filter (·.requestId == t.requestId) := by
      refine Table.filter_update_of_disjoint (fun _ => rfl) fun b _ hit => ?_
      rw [beq_iff_eq.mp hit]
      simp [other]
    rw [journal]
    simp only [Journal.ofTurn]
    rw [basis, basis, Table.filter_update_of_disjoint (f := ToolRow.complete raw _)
      (fun _ => rfl) (calls _)]
    exact .inl rfl
  | leased lease s text found pending token hash =>
    have other := keys.ne_pending found pending live terminal
    simp only [Journal.ofTurn]
    rw [Table.filter_append_of_disjoint fun p member => ?_]
    · exact .inl rfl
    · rw [List.mem_singleton.mp member]
      simpa using Ne.symm other
  | requested new s texts found pending budget unknown fresh =>
    have other := keys.ne_pending found pending live terminal
    simp only [Journal.ofTurn]
    rw [Table.filter_append_of_disjoint fun p member => ?_]
    · exact .inl rfl
    · rw [List.mem_singleton.mp member]
      simpa using Ne.symm other
  | responded new s texts found pending request unknown =>
    have other := keys.ne_pending found pending live terminal
    simp only [Journal.ofTurn]
    rw [Table.filter_append_of_disjoint fun p member => ?_]
    · exact .inl rfl
    · rw [List.mem_singleton.mp member]
      simpa using Ne.symm other
  | retired retiredAt cutoff =>
    rcases retireAll_turn keys retiredAt cutoff live with ⟨_, same⟩ | removed
    · exact .inl same
    · exact .inr removed

/-- What becomes of a tool call: nothing, or its completion, or it goes with its turn. -/
theorem Change.tool_row (c : Change host kind db db') (keys : JournalKeys db.toJournal)
    {call : ToolRow} (member : call ∈ db.toolCalls) :
    (∃ d ∈ db'.toolCalls,
        d = call ∨ (call.status = .started ∧ ∃ raw e, d = call.complete raw e)) ∨
      ∃ t ∈ db.turns, t.requestId = call.requestId ∧ Removed kind t db' := by
  cases c with
  | additive evolves =>
    rw [congrArg Journal.toolCalls evolves.journal]
    exact .inl ⟨call, member, .inl rfl⟩
  | begun clk r c row payload basis input custom normal begun =>
    rw [congrArg Journal.toolCalls begun.journal]
    exact .inl ⟨call, member, .inl rfl⟩
  | committed clk id generation reply s row facts snapshot edges done =>
    rw [congrArg Journal.toolCalls done.journal]
    exact .inl ⟨call, member, .inl rfl⟩
  | toolStarted id callId name args s texts found pending unknown fresh =>
    exact .inl ⟨call, List.mem_append_left _ member, .inl rfl⟩
  | toolFinished clk id callId raw s row found pending known started finished =>
    obtain ⟨_, _, journal⟩ := finished.journal
    rw [congrArg Journal.toolCalls journal]
    refine .inl ⟨_, Table.mem_update.mpr ⟨call, member, rfl⟩, ?_⟩
    split
    · rename_i hit
      rw [keys.tool_eq known member hit]
      exact .inr ⟨started, raw, _, rfl⟩
    · exact .inl rfl
  | retired retiredAt cutoff =>
    obtain ⟨t, live, same⟩ := keys.toolTurn call member
    rcases retireAll_turn keys retiredAt cutoff live with ⟨stays, _⟩ | removed
    · rw [congrArg Journal.toolCalls (retireAll_journal keys retiredAt cutoff)]
      refine .inl ⟨call, Table.mem_delete.mpr ⟨member, ?_⟩, .inl rfl⟩
      rw [← same]
      exact stays
    · exact .inr ⟨t, live, same, removed⟩
  | _ => exact .inl ⟨call, member, .inl rfl⟩

/-- Completion is a step: a started call records neither a result nor evidence. -/
theorem ToolStep.complete (h : JournalInvariant db) {call : ToolRow} (member : call ∈ db.toolCalls)
    (started : call.status = .started) (raw : Json) (e : Int) :
    ToolStep call (call.complete raw e) := by
  obtain ⟨result, evidence⟩ := h.unset call member started
  refine ⟨⟨rfl, rfl, rfl, rfl, rfl⟩, fun completed => ?_, fun j set => ?_, fun e set => ?_⟩
  · rw [started] at completed
    cases completed
  · rw [result] at set
    cases set
  · rw [evidence] at set
    cases set

theorem Change.tool_step (c : Change host kind db db') (h : JournalInvariant db)
    {call : ToolRow} (member : call ∈ db.toolCalls) :
    (∃ d ∈ db'.toolCalls, ToolStep call d) ∨
      ∃ t ∈ db.turns, t.requestId = call.requestId ∧ Removed kind t db' := by
  rcases c.tool_row h.keys member with ⟨d, later, rfl | ⟨started, raw, e, rfl⟩⟩ | removed
  · exact .inl ⟨d, later, .same d⟩
  · exact .inl ⟨_, later, .complete h member started raw e⟩
  · exact .inr removed

/-- Where a tool call comes from. -/
theorem Change.new_tool (c : Change host kind db db') (h : JournalInvariant db)
    {d : ToolRow} (member : d ∈ db'.toolCalls) :
    (∃ call ∈ db.toolCalls, ToolStep call d) ∨ d.status = .started := by
  rcases c.tool_origin h member with old | ⟨started, _⟩ | ⟨call, old, started, raw, e, rfl, _⟩
  · exact .inl ⟨d, old, .same d⟩
  · exact .inr started
  · exact .inl ⟨call, old, .complete h old started raw e⟩

/-- A recorded request stays. -/
theorem Change.request_step (c : Change host kind db db') (keys : JournalKeys db.toJournal)
    {m : ModelCallRow} (member : m ∈ db.modelCalls) :
    m ∈ db'.modelCalls ∨ ∃ t ∈ db.turns, t.requestId = m.requestId ∧ Removed kind t db' := by
  cases c with
  | additive evolves =>
    rw [congrArg Journal.modelCalls evolves.journal]
    exact .inl member
  | begun clk r c row payload basis input custom normal begun =>
    rw [congrArg Journal.modelCalls begun.journal]
    exact .inl member
  | committed clk id generation reply s row facts snapshot edges done =>
    rw [congrArg Journal.modelCalls done.journal]
    exact .inl member
  | toolFinished clk id callId raw s row found pending known started finished =>
    obtain ⟨_, _, journal⟩ := finished.journal
    rw [congrArg Journal.modelCalls journal]
    exact .inl member
  | requested new s texts found pending budget unknown fresh =>
    exact .inl (List.mem_append_left _ member)
  | retired retiredAt cutoff =>
    obtain ⟨t, live, same⟩ := keys.callTurn m member
    rcases retireAll_turn keys retiredAt cutoff live with ⟨stays, _⟩ | removed
    · rw [congrArg Journal.modelCalls (retireAll_journal keys retiredAt cutoff)]
      refine .inl (Table.mem_delete.mpr ⟨member, ?_⟩)
      rw [← same]
      exact stays
    · exact .inr ⟨t, live, same, removed⟩
  | _ => exact .inl member

/-- A recorded response stays. -/
theorem Change.response_step (c : Change host kind db db') (keys : JournalKeys db.toJournal)
    {r : ModelResponseRow} (member : r ∈ db.modelResponses) :
    r ∈ db'.modelResponses ∨ ∃ t ∈ db.turns, t.requestId = r.requestId ∧ Removed kind t db' := by
  cases c with
  | additive evolves =>
    rw [congrArg Journal.modelResponses evolves.journal]
    exact .inl member
  | begun clk r c row payload basis input custom normal begun =>
    rw [congrArg Journal.modelResponses begun.journal]
    exact .inl member
  | committed clk id generation reply s row facts snapshot edges done =>
    rw [congrArg Journal.modelResponses done.journal]
    exact .inl member
  | toolFinished clk id callId raw s row found pending known started finished =>
    obtain ⟨_, _, journal⟩ := finished.journal
    rw [congrArg Journal.modelResponses journal]
    exact .inl member
  | responded new s texts found pending request unknown =>
    exact .inl (List.mem_append_left _ member)
  | retired retiredAt cutoff =>
    obtain ⟨m, call, called, _⟩ := keys.responseCall r member
    obtain ⟨t, live, same⟩ := keys.callTurn m call
    rcases retireAll_turn keys retiredAt cutoff live with ⟨stays, _⟩ | removed
    · rw [congrArg Journal.modelResponses (retireAll_journal keys retiredAt cutoff)]
      refine .inl (Table.mem_delete.mpr ⟨member, ?_⟩)
      rw [← called, ← same]
      exact stays
    · exact .inr ⟨t, live, same.trans called, removed⟩
  | _ => exact .inl member

/-- A tombstone stays. -/
theorem Change.retired_step (c : Change host kind db db') (keys : JournalKeys db.toJournal)
    {r : RetiredRow} (member : r ∈ db.retiredTurns) : r ∈ db'.retiredTurns := by
  cases c with
  | additive evolves =>
    rw [congrArg Journal.retiredTurns evolves.journal]
    exact member
  | begun clk r c row payload basis input custom normal begun =>
    rw [congrArg Journal.retiredTurns begun.journal]
    exact member
  | committed clk id generation reply s row facts snapshot edges done =>
    rw [congrArg Journal.retiredTurns done.journal]
    exact member
  | toolFinished clk id callId raw s row found pending known started finished =>
    obtain ⟨_, _, journal⟩ := finished.journal
    rw [congrArg Journal.retiredTurns journal]
    exact member
  | retired retiredAt cutoff =>
    rw [congrArg Journal.retiredTurns (retireAll_journal keys retiredAt cutoff)]
    exact List.mem_append_left _ member
  | _ => exact member

theorem Change.journalStep (c : Change host kind db db') (h : JournalInvariant db) :
    JournalStep kind db db' where
  turn _ live := c.turn_step h.keys live
  terminal _ live done := c.terminal_step h.keys live done
  newTurn _ live := c.new_turn h.keys live
  tool _ member := c.tool_step h member
  newTool _ member := c.new_tool h member
  request _ member := c.request_step h.keys member
  response _ member := c.response_step h.keys member

end Step

/-- **The turn journal.** In every database that engine operations lead to, the invariant holds,
    and whatever operation comes next moves the journal as `JournalStep` says. -/
theorem journal_state_machine (host : Host) (calls : List (Clock × Op)) (call : Clock × Op) :
    JournalInvariant (runOps host .empty calls) ∧
      JournalStep ((engineStep call).performed host (runOps host .empty calls))
        (runOps host .empty calls) ((engineStep call).next host (runOps host .empty calls)) := by
  have inv := (runOps_reachable host calls).invariant
  exact ⟨inv, (Step.engine_change (engineStep_isEngine call) _).journalStep inv⟩

end Cmpath
