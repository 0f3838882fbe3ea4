import Cmpath.Engine.Session
import Cmpath.Journal.StateMachine

/-!
# At most one callback for a tool call

A callback runs on a ticket: the answer `Created` of `StartTool`, given for a pair of identifiers
only while no row and no tombstone names it. Whatever happens later leaves one of the two in place
(`Used`), so there is never a second ticket, and a ticket is spent when its callback runs.
-/

namespace Cmpath
open Lib Lib.Txn

/-- The pair has a tool row, or its turn is retired. -/
def Used (id callId : Text) (db : Db) : Prop :=
  (∃ c ∈ db.toolCalls, c.requestId = id ∧ c.callId = callId) ∨
    ∃ r ∈ db.retiredTurns, r.requestId = id

section Used

variable {host : Host} {db : Db} {id callId : Text}

/-- Nothing frees a pair that was used. -/
theorem Step.used (step : Step) (keys : JournalKeys db.toJournal) (h : Used id callId db) :
    Used id callId (step.next host db) := by
  rcases step.change host db with change | evolves
  · rcases h with ⟨c, member, own, name⟩ | ⟨r, member, own⟩
    · rcases change.tool_row keys member with ⟨d, later, rfl | ⟨_, raw, e, rfl⟩⟩ |
        ⟨t, _, same, removed⟩
      · exact .inl ⟨d, later, own, name⟩
      · exact .inl ⟨_, later, own, name⟩
      · obtain ⟨_, tomb⟩ := removed.tombstone
        exact .inr ⟨_, tomb, same.trans own⟩
    · exact .inr ⟨r, change.retired_step keys member, own⟩
  · unfold Used
    rw [evolves.journal]
    exact h

section Follows

variable {allowed : Step → Prop} {created : List Text} {db' : Db}

theorem Follows.keys (h : Follows host allowed created db db') (keys : JournalKeys db.toJournal) :
    JournalKeys db'.toJournal := by
  rcases h with ⟨rfl, _⟩ | ⟨step, _, rfl, _⟩
  · exact keys
  · exact step.keys keys

theorem Follows.used (h : Follows host allowed created db db') (keys : JournalKeys db.toJournal)
    (used : Used id callId db) : Used id callId db' := by
  rcases h with ⟨rfl, _⟩ | ⟨step, _, rfl, _⟩
  · exact used
  · exact step.used keys used

end Follows

/-- A call that was just created was not used before, and is now. -/
theorem startTool_created {generation : Int} {name : Text} {args : Json} {db' : Db}
    {out : ToolCall} (keys : JournalKeys db.toJournal)
    (h : startTool host id generation callId name args db = .ok (out, db'))
    (created : out.created = true) : ¬ Used id callId db ∧ Used id callId db' := by
  obtain ⟨_, _, t, live, _, _, ⟨old, _, _, rfl, _⟩ | ⟨unknown, _, _, _, rfl⟩⟩ := startTool_ok h
  · cases created
  · refine ⟨?_, .inl ⟨_, List.mem_append_right _ (List.mem_singleton_self _), rfl, rfl⟩⟩
    rintro (⟨c, member, own, name⟩ | ⟨r, member, own⟩)
    · exact tool?_none unknown c member (Prod.ext own name)
    · exact keys.apart t (turn?_mem live) r member (own.trans (turn?_id live).symm)

end Used

/-! ## Tickets -/

/-- The stage may still run its callback. -/
def ToolStage.ticket : ToolStage → Bool
  | .intended | .leased _ => true
  | _ => false

/-- The call holds a ticket of the pair. -/
def holds (id callId : Text) (call : ToolRequest × ToolStage) : Bool :=
  call.1.requestId == id && call.1.callId == callId && call.2.ticket

/-- The callbacks of the pair that ran and that may still run. -/
def Sys.callbacks (s : Sys) (id callId : Text) : Nat :=
  s.executions.count (id, callId) + s.tools.countP (holds id callId)

/-- A callback that ran or may run belongs to a used pair, and there is one at most. -/
structure CallbackInvariant (s : Sys) : Prop where
  keys : JournalKeys s.db.toJournal
  once : ∀ id callId, s.callbacks id callId ≤ 1
  used : ∀ id callId, 0 < s.callbacks id callId → Used id callId s.db

/-- What a step of `Session.Tool` does: its transaction is one of the engine's, a callback is the
    pair's own and spends the ticket, and a ticket comes from an unused pair. -/
structure MoveSpec (host : Host) (r : ToolRequest) (before : Db) (stage : ToolStage)
    (m : ToolMove) : Prop where
  db : Follows host Step.noAppend [] before m.db
  own : ∀ e ∈ m.executions, e = (r.requestId, r.callId)
  ticket : m.stage.ticket.toNat + m.executions.length ≤ stage.ticket.toNat ∨
    (stage.ticket = false ∧ m.executions = [] ∧ ¬ Used r.requestId r.callId before ∧
      Used r.requestId r.callId m.db)

section Move

variable {host : Host} {clk : Clock} {r : ToolRequest} {db : Db}

theorem enterTool_spec (keys : JournalKeys db.toJournal) :
    MoveSpec host r db .entered (enterTool host r db) := by
  have follows : ∀ {result db'}, atomic (startTool host r.requestId r.generation r.callId r.name
      r.args) db = (result, db') → Follows host Step.noAppend [] db db' := by
    intro result db' run
    have made := Follows.of_atomic plainClock (.startTool r.requestId r.generation r.callId r.name
      r.args) .tool rfl nofun run
    cases result <;> exact made
  unfold enterTool
  split
  · exact ⟨.same db, nofun, .inl (le_refl _)⟩
  split
  · rename_i run
    exact ⟨follows run, nofun, .inl (le_refl _)⟩
  · rename_i call db' run
    split
    · exact ⟨follows run, nofun, .inl (le_refl _)⟩
    split
    · exact ⟨follows run, nofun, .inl (le_refl _)⟩
    · rename_i created
      obtain ⟨unused, used⟩ := startTool_created keys (atomic_ok.mp run) (by simpa using created)
      exact ⟨follows run, nofun, .inr ⟨rfl, rfl, unused, used⟩⟩

theorem leaseTool_spec : MoveSpec host r db .intended (leaseTool host clk r db) := by
  unfold leaseTool
  split
  · rename_i run
    exact ⟨.of_atomic clk (.actionEligible r.requestId r.generation r.callId 5000) .lease rfl nofun
      run, nofun, .inl (Nat.zero_le _)⟩
  · rename_i run
    exact ⟨.of_atomic clk (.actionEligible r.requestId r.generation r.callId 5000) .lease rfl nofun
      run, nofun, .inl (le_refl _)⟩

theorem callTool_spec {answer : Option Json} {token : Text} :
    MoveSpec host r db (.leased token) (callTool answer r db token) := by
  unfold callTool
  split <;> exact ⟨.same db, fun e member => List.mem_singleton.mp member, .inl (le_refl _)⟩

theorem recordTool_spec {token : Text} {result : Json} :
    MoveSpec host r db (.executed token result) (recordTool host clk r db token result) := by
  unfold recordTool
  split <;>
  · rename_i run
    exact ⟨.of_atomic clk (.finishTool r.requestId r.generation r.callId result [token]) .tool rfl
      nofun run, nofun, .inl (le_refl _)⟩

theorem toolMove_spec {answer : Option Json} (keys : JournalKeys db.toJournal) (stage : ToolStage) :
    MoveSpec host r db stage (toolMove host clk answer r db stage) := by
  cases stage with
  | entered => exact enterTool_spec keys
  | intended => exact leaseTool_spec
  | leased token => exact callTool_spec
  | executed token result => exact recordTool_spec
  | returned outcome => exact ⟨.same db, nofun, .inl (le_refl _)⟩

end Move

/-! ## The invariant -/

theorem CallbackInvariant.empty : CallbackInvariant {} :=
  ⟨JournalKeys.empty, fun _ _ => Nat.zero_le _, fun _ _ h => absurd h (Nat.lt_irrefl 0)⟩

section Invariant

variable {host : Host} {s : Sys}

/-- Where no callback runs or may run that did not before, the database may move on. -/
theorem CallbackInvariant.of_le {s' : Sys} {allowed : Step → Prop} {created : List Text}
    (h : CallbackInvariant s) (db : Follows host allowed created s.db s'.db)
    (le : ∀ id callId, s'.callbacks id callId ≤ s.callbacks id callId) : CallbackInvariant s' := by
  refine ⟨db.keys h.keys, fun id callId => le_trans (le id callId) (h.once id callId), ?_⟩
  intro id callId some_
  exact db.used h.keys (h.used id callId (lt_of_lt_of_le some_ (le id callId)))

/-- The callbacks of a pair after one call moved. -/
theorem callbacks_afterTool {k : Nat} {r : ToolRequest} {stage : ToolStage}
    (here : s.tools[k]? = some (r, stage)) (m : ToolMove) (id callId : Text) :
    (s.afterTool k r m).callbacks id callId + (holds id callId (r, stage)).toNat =
      s.callbacks id callId + (holds id callId (r, m.stage)).toNat +
        m.executions.count (id, callId) := by
  have moved := Table.countP_set_add (holds id callId) (r, m.stage) here
  simp only [Sys.callbacks, Sys.afterTool, List.count_append]
  omega

theorem CallbackInvariant.tool {k : Nat} {r : ToolRequest} {stage : ToolStage} {m : ToolMove}
    (h : CallbackInvariant s) (here : s.tools[k]? = some (r, stage))
    (spec : MoveSpec host r s.db stage m) : CallbackInvariant (s.afterTool k r m) := by
  have stable : ∀ id callId, Used id callId s.db → Used id callId m.db :=
    fun _ _ => spec.db.used h.keys
  -- one pair at a time: the moved call's own, or another one, whose callbacks stay
  have each_ : ∀ id callId, (s.afterTool k r m).callbacks id callId ≤ 1 ∧
      (0 < (s.afterTool k r m).callbacks id callId → Used id callId m.db) := by
    intro id callId
    have moved := callbacks_afterTool here m id callId
    have before := h.once id callId
    by_cases own : r.requestId = id ∧ r.callId = callId
    · obtain ⟨rfl, rfl⟩ := own
      have all : m.executions.count (r.requestId, r.callId) = m.executions.length :=
        List.count_eq_length.mpr fun e member => (spec.own e member).symm
      have ticket : ∀ stage : ToolStage,
          holds r.requestId r.callId (r, stage) = stage.ticket := by
        intro stage
        simp [holds]
      rw [all, ticket, ticket] at moved
      rcases spec.ticket with spent | ⟨none_, quiet, unused, used⟩
      · exact ⟨by omega, fun some_ => stable _ _ (h.used _ _ (by omega))⟩
      · have zero : s.callbacks r.requestId r.callId = 0 :=
          Nat.eq_zero_of_not_pos fun some_ => unused (h.used _ _ some_)
        have bound := Bool.toNat_le m.stage.ticket
        rw [quiet, List.length_nil, none_, Bool.toNat_false] at moved
        exact ⟨by omega, fun _ => used⟩
    · have other : ∀ stage : ToolStage, holds id callId (r, stage) = false := by
        intro stage
        simp only [holds, Bool.and_eq_false_iff, beq_eq_false_iff_ne]
        by_cases request : r.requestId = id
        · exact .inl (.inr fun call => own ⟨request, call⟩)
        · exact .inl (.inl request)
      have none_ : m.executions.count (id, callId) = 0 :=
        List.count_eq_zero.mpr fun member =>
          own ((Prod.mk.inj (spec.own _ member)).imp Eq.symm Eq.symm)
      rw [none_, other, other] at moved
      exact ⟨by omega, fun some_ => stable _ _ (h.used _ _ (by omega))⟩
  exact ⟨spec.db.keys h.keys, fun id callId => (each_ id callId).1, fun id callId => (each_ id callId).2⟩

theorem CallbackInvariant.next (event : Event) (h : CallbackInvariant s) :
    CallbackInvariant (s.next host event) := by
  have same : Follows host Step.noAppend [] s.db s.db := .same s.db
  cases event with
  | transaction step =>
    have any : Follows host (fun _ => True) _ s.db (step.next host s.db) := .of_step trivial s.db
    exact h.of_le any fun _ _ => le_refl _
  | enterTool r =>
    refine h.of_le same fun id callId => ?_
    show s.executions.count (id, callId) + (s.tools ++ [(r, ToolStage.entered)]).countP _ ≤ _
    rw [List.countP_append]
    simp [Sys.callbacks, holds, ToolStage.ticket]
  | tool k clk answer =>
    cases here : s.tools[k]? with
    | none =>
      simp only [Sys.next, here]
      exact h
    | some call =>
      simp only [Sys.next, here]
      exact h.tool here (toolMove_spec h.keys call.2)
  | enterRun r => exact h.of_le same fun _ _ => le_refl _
  | run k clk cancelled answer =>
    cases here : s.runs[k]? with
    | none =>
      simp only [Sys.next, here]
      exact h
    | some call =>
      simp only [Sys.next, here]
      exact h.of_le (runMove_follows host clk cancelled answer call.1 s.db call.2) fun _ _ => le_refl _

end Invariant

/-- **At most one callback.** Whatever transactions, session calls and crashes make up a run, the
    callback of a pair of identifiers runs at most once in it. -/
theorem callback_at_most_once (host : Host) (events : List Event) (id callId : Text) :
    (runEvents host {} events).executions.count (id, callId) ≤ 1 := by
  have every : ∀ s event, True → CallbackInvariant s → CallbackInvariant (s.next host event) :=
    fun _ event _ inv => inv.next event
  have inv : CallbackInvariant (runEvents host {} events) :=
    runEvents_inv every (fun _ _ => trivial) CallbackInvariant.empty
  exact le_trans (Nat.le_add_right _ _) (inv.once id callId)

end Cmpath
