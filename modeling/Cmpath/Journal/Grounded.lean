import Cmpath.Journal.StateMachine
import Cmpath.Store.Clock

/-!
# What the journal stands on

A turn names a task that is there, every task and the whole database have a clock, the recorded
calls have proper identifiers and no token is issued twice. An operation that only checks the
journal therefore does not fail on the other tables.
-/

namespace Cmpath
open Lib Lib.Txn

/-! ## Clocks -/

theorem clock?_bump_self (id : Int) (epochs : List EpochRow) :
    (clock? (bump id epochs) id).isSome := by
  unfold bump
  split
  · rename_i present
    obtain ⟨e, member, own⟩ := List.any_eq_true.mp present
    rw [clock?_update]
    have found : (epochs.find? (·.taskId == id)).isSome := List.find?_isSome.mpr ⟨e, member, own⟩
    simpa [clock?] using found
  · unfold clock?
    rw [List.find?_append]
    cases epochs.find? (·.taskId == id) with
    | none => simp
    | some e => rfl

theorem touchAll_clock {ts : List Touch} {db : Db} {key : Int} (h : (db.epoch? key).isSome) :
    ((db.touchAll ts).epoch? key).isSome := by
  obtain ⟨e, here⟩ := Option.isSome_iff_exists.mp h
  exact Option.isSome_of_eq_some ((touchAll_log ts db).2 here)

/-- Every task and the whole database have a clock. -/
structure Db.Clocked (db : Db) : Prop where
  task : ∀ r ∈ db.tasks, (db.epoch? r.id).isSome
  whole : (db.epoch? 0).isSome

theorem Write.clocked {w : Write} {db : Db} (legal : w.Legal db) (h : db.Clocked) :
    (w.apply db).Clocked := by
  have clock : ∀ {key : Int}, (db.epoch? key).isSome → ((w.apply db).epoch? key).isSome := by
    intro key here
    obtain ⟨tables, same⟩ := w.apply_eq db
    rw [same]
    exact @touchAll_clock _ { db with toTables := tables } key here
  have subset : (∀ r ∈ (w.apply db).tasks, r ∈ db.tasks) → (w.apply db).Clocked := fun kept =>
    ⟨fun r member => clock (h.task r (kept r member)), clock h.whole⟩
  cases w with
  | insertTask new =>
    refine ⟨fun r member => ?_, clock h.whole⟩
    rcases List.mem_append.mp member with old | added
    · exact clock (h.task r old)
    · rw [List.mem_singleton.mp added]
      show (clock? (tick (bump new.id db.scopeEpochs)) new.id).isSome
      unfold tick
      rw [clock?_update, Option.isSome_map]
      exact clock?_bump_self new.id db.scopeEpochs
  | replaceTask old new =>
    refine ⟨fun r member => ?_, clock h.whole⟩
    rcases Table.mem_replace member with rfl | kept
    · rw [legal.2]
      exact clock (h.task old (List.mem_of_find?_eq_some legal.1))
    · exact clock (h.task r kept)
  | deleteTasks gone =>
    refine subset fun r member => ?_
    rw [Write.apply, Db.deleteTasks, touchAll_tasks] at member
    exact (Table.mem_delete.mp member).1
  | deleteMessages | deleteFacts | deleteDependencies | deleteAliases =>
    refine subset fun r member => ?_
    simpa [Write.apply, Db.deleteMessages, Db.deleteFacts, Db.deleteDependencies,
      Db.deleteAliases] using member
  | _ => exact subset fun _ member => member

/-! ## Tasks of turns -/

/-- A task stays under the engine's writes, and under any while a turn names it. -/
theorem Write.turnTask {w : Write} {db : Db} (legal : w.Legal db) {id : Int}
    (here : (db.task? id).isSome) (turn : w.Engine ∨ ∃ t ∈ db.turns, t.taskId = id) :
    ((w.apply db).task? id).isSome := by
  cases w with
  | insertTask new =>
    show ((db.tasks ++ [new]).find? _).isSome
    rw [List.find?_append, Option.isSome_or]
    exact Bool.or_eq_true_iff.mpr (.inl here)
  | replaceTask old new =>
    obtain ⟨found, same⟩ := legal
    show ((Table.replace (·.id == old.id) new db.tasks).find? (·.id == id)).isSome
    by_cases own : id = old.id
    · subst own
      rw [Table.find?_replace_self found same]
      rfl
    · rw [Table.find?_replace_ne same own]
      exact here
  | deleteTasks gone =>
    have apart : ∀ r ∈ db.tasks, (r.id == id) = true → gone r = false := by
      intro r row same
      obtain ⟨t, member, own⟩ := turn.resolve_left fun engine => engine.elim
      by_contra removed
      exact (legal r row (by simpa using removed)).2 t member (own.trans (beq_iff_eq.mp same).symm)
    unfold Db.task?
    rw [show (Write.apply (.deleteTasks gone) db).tasks = Table.delete gone db.tasks by
      simp [Write.apply, Db.deleteTasks], Table.find?_delete apart]
    exact here
  | deleteMessages | deleteFacts | deleteDependencies | deleteAliases =>
    unfold Db.task? at here ⊢
    simpa [Write.apply, Db.deleteMessages, Db.deleteFacts, Db.deleteDependencies,
      Db.deleteAliases] using here
  | _ => exact here

/-! ## The invariant -/

/-- What the journal stands on. -/
structure Db.Grounded (db : Db) : Prop where
  keys : JournalKeys db.toJournal
  clocked : db.Clocked
  turnTask : ∀ t ∈ db.turns, (db.task? t.taskId).isSome
  names : ∀ c ∈ db.toolCalls, textOK c.callId = true ∧ c.callId.size ≤ 128
  tokens : Table.Keyed (·.token) db.actionLeases

section Step

variable {host : Host} {kind : Kind} {db db' : Db}

theorem Based.clocked (h : Based Write.Any db db') (clocked : db.Clocked) : db'.Clocked := by
  obtain ⟨mid, evolves, tables, epochs, _⟩ := h
  have kept : mid.Clocked := evolves.inv (fun w _ _ legal h => w.clocked legal h) clocked
  refine ⟨fun r member => ?_, ?_⟩
  · unfold Db.epoch?
    rw [epochs]
    exact kept.task r (congrArg Tables.tasks tables ▸ member)
  · unfold Db.epoch?
    rw [epochs]
    exact kept.whole

theorem Based.turnTask {allowed : Write → Prop} (h : Based allowed db db') {id : Int}
    (here : (db.task? id).isSome)
    (turn : (∀ w, allowed w → w.Engine) ∨ ∃ t ∈ db.turns, t.taskId = id) :
    (db'.task? id).isSome := by
  obtain ⟨mid, evolves, tables, _⟩ := h
  have kept : mid.turns = db.turns ∧ (mid.task? id).isSome := by
    refine evolves.inv (P := fun d => d.turns = db.turns ∧ (d.task? id).isSome) ?_ ⟨rfl, here⟩
    rintro w d kind legal ⟨same, here⟩
    refine ⟨(congrArg Journal.turns (w.apply_journal d)).trans same, ?_⟩
    rw [← same] at turn
    exact w.turnTask legal here (turn.imp_left fun engine => engine w kind)
  unfold Db.task?
  rw [congrArg Tables.tasks tables]
  exact kept.2

/-- A recorded call has a proper identifier, and keeps it. -/
theorem Change.tool_names (c : Change host kind db db') (keys : JournalKeys db.toJournal)
    (h : ∀ c ∈ db.toolCalls, textOK c.callId = true ∧ c.callId.size ≤ 128) :
    ∀ c ∈ db'.toolCalls, textOK c.callId = true ∧ c.callId.size ≤ 128 := by
  intro d member
  cases c with
  | additive evolves =>
    rw [congrArg Journal.toolCalls evolves.journal] at member
    exact h d member
  | begun clk r c row payload basis input custom normal begun =>
    rw [congrArg Journal.toolCalls begun.journal] at member
    exact h d member
  | committed clk id generation reply t row facts snapshot edges committed =>
    rw [congrArg Journal.toolCalls committed.journal] at member
    exact h d member
  | toolStarted id callId name args t texts live pending unknown fresh =>
    rcases List.mem_append.mp member with member | member
    · exact h d member
    · rw [List.mem_singleton.mp member]
      exact texts.1
  | toolFinished clk id callId raw t call live pending known started finished =>
    obtain ⟨_, _, journal⟩ := finished.journal
    rw [congrArg Journal.toolCalls journal] at member
    obtain ⟨e, source, rfl⟩ := Table.mem_update.mp member
    split <;> exact h e source
  | retired retiredAt cutoff =>
    rw [congrArg Journal.toolCalls (retireAll_journal keys retiredAt cutoff)] at member
    exact h d (Table.mem_delete.mp member).1
  | _ => exact h d member

/-- No token is issued twice. -/
theorem Change.lease_tokens (c : Change host kind db db') (keys : JournalKeys db.toJournal)
    (h : Table.Keyed (·.token) db.actionLeases) : Table.Keyed (·.token) db'.actionLeases := by
  cases c with
  | additive evolves =>
    rw [congrArg Journal.actionLeases evolves.journal]
    exact h
  | begun clk r c row payload basis input custom normal begun =>
    rw [congrArg Journal.actionLeases begun.journal]
    exact h
  | committed clk id generation reply t row facts snapshot edges committed =>
    rw [congrArg Journal.actionLeases committed.journal]
    exact h
  | toolFinished clk id callId raw t call live pending known started finished =>
    obtain ⟨_, _, journal⟩ := finished.journal
    rw [congrArg Journal.actionLeases journal]
    exact h
  | leased lease t text live pending token hash => exact h.append token.2
  | retired retiredAt cutoff =>
    rw [congrArg Journal.actionLeases (retireAll_journal keys retiredAt cutoff)]
    exact h.delete
  | _ => exact h

theorem Step.grounded (step : Step) (h : db.Grounded) : (step.next host db).Grounded := by
  have based := step.based host db
  have clocked := based.clocked h.clocked
  have turnTask : ∀ t ∈ db.turns, ((step.next host db).task? t.taskId).isSome :=
    fun t live => based.turnTask (h.turnTask t live) (.inr ⟨t, live, rfl⟩)
  have keys := @Step.keys host step db h.keys
  rcases step.change host db with change | evolves
  · refine ⟨keys, clocked, fun u live => ?_, change.tool_names h.keys h.names,
      change.lease_tokens h.keys h.tokens⟩
    rcases change.turn_origin h.keys live with ⟨t, source, record⟩ | ⟨_, _, here⟩
    · rw [record.2.1]
      exact turnTask t source
    · exact change.based.turnTask here (.inl fun _ engine => engine)
  · have journal := evolves.journal
    refine ⟨keys, clocked, fun t live => ?_, ?_, ?_⟩
    · rw [congrArg Journal.turns journal] at live
      exact turnTask t live
    · rw [congrArg Journal.toolCalls journal]
      exact h.names
    · rw [congrArg Journal.actionLeases journal]
      exact h.tokens

theorem Reachable.grounded (h : Reachable host db) : db.Grounded := by
  have none_ : ∀ {α : Type} {P : α → Prop}, ∀ a ∈ ([] : List α), P a :=
    fun _ member => absurd member List.not_mem_nil
  have start : Db.empty.Grounded :=
    ⟨JournalKeys.empty, ⟨none_, rfl⟩, none_, none_, List.nodup_nil⟩
  exact h.inv start fun _ step grounded => step.grounded grounded

end Step

end Cmpath
