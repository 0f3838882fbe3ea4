import Cmpath.Journal.StateMachine

/-!
# Fencing

An operation that carries a generation succeeds only at the turn's current one, and a recovery
moves the current one past every generation handed out before, for ever: the turn keeps a larger
generation until its tombstone stands in its place.
-/

namespace Cmpath
open Lib Lib.Txn

/-- The turn and the generation an operation carries. -/
def Op.fence : Op → Option (Text × Int)
  | .recover id generation => some (id, generation)
  | .commit id generation _ => some (id, generation)
  | .abort id generation => some (id, generation)
  | .actionEligible id generation _ _ => some (id, generation)
  | .startTool id generation _ _ _ => some (id, generation)
  | .finishTool id generation _ _ _ => some (id, generation)
  | .recordModelRequest id generation _ _ _ _ => some (id, generation)
  | .recordModelResponse id generation _ _ => some (id, generation)
  | _ => none

/-- The operation fails and leaves every table as it is. -/
def Refused (host : Host) (clk : Clock) (op : Op) (db : Db) : Prop :=
  (∃ e, (Step.exec host ⟨clk, .engine op⟩ db).1 = .error e) ∧
    Step.next host ⟨clk, .engine op⟩ db = db

/-- What never succeeds is refused. -/
theorem refused_of_not_ok {host : Host} {clk : Clock} {op : Op} {db : Db}
    (fails : ∀ out db', op.run host clk db ≠ .ok (out, db')) : Refused host clk op db := by
  cases run : atomic (op.run host clk) db with
  | mk result db' =>
    cases result with
    | error e =>
      have exec : Step.exec host ⟨clk, .engine op⟩ db = (.error e, db') := run
      refine ⟨⟨e, by rw [exec]⟩, ?_⟩
      rw [Step.next, exec]
      exact atomic_error run
    | ok out => exact absurd (atomic_ok.mp run) (fails out db')

/-- **Every operation checks its generation before it answers or writes.** -/
theorem Op.fenced {host : Host} {clk : Clock} {op : Op} {id : Text} {generation : Int}
    {db db' : Db} {out : Response} (carries : op.fence = some (id, generation))
    (h : op.run host clk db = .ok (out, db')) :
    ∃ t, db.turn? id = some t ∧ t.generation = generation := by
  cases op with
  | recover rid g =>
    cases carries
    obtain ⟨_, run, _⟩ := responding_ok.mp h
    obtain ⟨t, _, live, _, current, _⟩ := recover_ok run
    exact ⟨t, live, current⟩
  | commit rid g reply =>
    cases carries
    obtain ⟨_, run, _⟩ := responding_ok.mp h
    -- a replay of a committed turn is fenced like the commit itself
    obtain ⟨t, live, _, current, _⟩ | ⟨t, _, _, _, _, done⟩ := commit_ok run
    · exact ⟨t, live, current⟩
    · exact ⟨t, done.live, done.current⟩
  | abort rid g =>
    cases carries
    obtain ⟨_, run, _⟩ := responding_ok.mp h
    obtain ⟨t, live, _, current, _⟩ := abort_ok run
    exact ⟨t, live, current⟩
  | actionEligible rid g callId ttlMs =>
    cases carries
    obtain ⟨_, run, _⟩ := responding_ok.mp h
    obtain ⟨_, t, _, _, live, _, current, _⟩ := actionEligible_ok run
    exact ⟨t, live, current⟩
  | startTool rid g callId name args =>
    cases carries
    obtain ⟨_, run, _⟩ := responding_ok.mp h
    obtain ⟨_, _, t, live, _, current, _⟩ := startTool_ok run
    exact ⟨t, live, current⟩
  | finishTool rid g callId result tokens =>
    cases carries
    obtain ⟨_, run, _⟩ := responding_ok.mp h
    obtain ⟨t, _, live, _, current, _⟩ := finishTool_ok run
    exact ⟨t, live, current⟩
  | recordModelRequest rid g callId payload units counting =>
    cases carries
    obtain ⟨_, run, _⟩ := responding_ok.mp h
    obtain ⟨_, _, _, t, live, _, current, _⟩ := recordModelRequest_ok run
    exact ⟨t, live, current⟩
  | recordModelResponse rid g callId response =>
    cases carries
    obtain ⟨_, run, _⟩ := responding_ok.mp h
    obtain ⟨_, _, t, live, _, current, _⟩ := recordModelResponse_ok run
    exact ⟨t, live, current⟩
  | _ => cases carries

/-! ## Past a generation -/

/-- The identifier is past a generation: its turn has a later one, or is retired. -/
def Past (id : Text) (generation : Int) (db : Db) : Prop :=
  (∃ t ∈ db.turns, t.requestId = id ∧ generation < t.generation) ∨
    ∃ r ∈ db.retiredTurns, r.requestId = id

section Step

variable {host : Host} {kind : Kind} {db db' : Db}

/-- No change brings an identifier back. -/
theorem Change.past (c : Change host kind db db') (keys : JournalKeys db.toJournal) {id : Text}
    {generation : Int} (h : Past id generation db) : Past id generation db' := by
  rcases h with ⟨t, live, same, later⟩ | ⟨r, member, same⟩
  · rcases c.turn_step keys live with ⟨u, member, step⟩ | removed
    · refine .inl ⟨u, member, step.record.1.trans same, ?_⟩
      have grows := step.generation
      split at grows <;> omega
    · obtain ⟨_, tomb⟩ := removed.tombstone
      exact .inr ⟨_, tomb, same⟩
  · exact .inr ⟨r, c.retired_step keys member, same⟩

end Step

theorem Step.past {host : Host} (step : Step) {id : Text} {generation : Int} {db : Db}
    (keys : JournalKeys db.toJournal) (h : Past id generation db) :
    Past id generation (step.next host db) := by
  rcases step.change host db with change | evolves
  · exact change.past keys h
  · unfold Past
    rw [evolves.journal]
    exact h

theorem runSteps_past {host : Host} (steps : List Step) {id : Text} {generation : Int} {db : Db}
    (keys : JournalKeys db.toJournal) (h : Past id generation db) :
    Past id generation (runSteps host db steps) := by
  have every : ∀ db (step : Step), True → JournalKeys db.toJournal ∧ Past id generation db →
      JournalKeys (step.next host db).toJournal ∧ Past id generation (step.next host db) :=
    fun _ step _ ⟨keys, past⟩ => ⟨step.keys keys, step.past keys past⟩
  have both : JournalKeys (runSteps host db steps).toJournal ∧
      Past id generation (runSteps host db steps) :=
    runSteps_inv (P := fun db => JournalKeys db.toJournal ∧ Past id generation db) every
      (fun _ _ => trivial) ⟨keys, h⟩
  exact both.2

/-- A recovery is past the generation it was given. -/
theorem past_of_recover {host : Host} {clk : Clock} {id : Text} {generation : Int} {db db' : Db}
    {out : Response} (h : (Op.recover id generation).run host clk db = .ok (out, db')) :
    Past id generation db' := by
  obtain ⟨_, run, _⟩ := responding_ok.mp h
  obtain ⟨t, row, live, _, current, _, _, rfl⟩ := recover_ok run
  refine .inl ⟨_, Table.mem_update.mpr ⟨t, turn?_mem live, rfl⟩, ?_⟩
  have own := turn?_id live
  rw [if_pos (beq_iff_eq.mpr own)]
  exact ⟨own, by show generation < t.generation + 1; omega⟩

/-- Past a generation there is no turn at it. -/
theorem Past.not_current {id : Text} {generation given : Int} {db : Db}
    (h : Past id generation db) (keys : JournalKeys db.toJournal) (le : given ≤ generation) :
    ∀ t, db.turn? id = some t → t.generation ≠ given := by
  intro t found current
  rcases h with ⟨u, live, same, later⟩ | ⟨r, member, same⟩
  · have : u = t := keys.turn_eq live (turn?_mem found) (same.trans (turn?_id found).symm)
    rw [this] at later
    omega
  · exact keys.apart t (turn?_mem found) r member (same.trans (turn?_id found).symm)

/-- **Generation fencing.** After any run of any writers, an operation that carries another
    generation than the turn's is refused. Once a recovery has succeeded at a generation, whatever
    runs later, every operation that carries this generation or an earlier one is refused. -/
theorem generation_fencing (host : Host) (before : List Step) :
    (∀ clk op id generation, Op.fence op = some (id, generation) →
      (∀ t, (runSteps host .empty before).turn? id = some t → t.generation ≠ generation) →
      Refused host clk op (runSteps host .empty before)) ∧
    (∀ clk id generation out,
      (Step.exec host ⟨clk, .engine (.recover id generation)⟩ (runSteps host .empty before)).1 =
        .ok out →
      ∀ after clk' op given, Op.fence op = some (id, given) → given ≤ generation →
        Refused host clk' op (runSteps host
          (Step.next host ⟨clk, .engine (.recover id generation)⟩ (runSteps host .empty before))
          after)) := by
  have keys : JournalKeys (runSteps host .empty before).toJournal := Reachable.keys ⟨before, rfl⟩
  have refuse : ∀ {db : Db} clk op id generation, Op.fence op = some (id, generation) →
      (∀ t, db.turn? id = some t → t.generation ≠ generation) → Refused host clk op db := by
    intro db clk op id generation carries stale
    refine refused_of_not_ok fun out db' run => ?_
    obtain ⟨t, found, current⟩ := Op.fenced carries run
    exact stale t found current
  refine ⟨refuse, ?_⟩
  intro clk id generation out ok after clk' op given carries le
  have run : (Op.recover id generation).run host clk (runSteps host .empty before) =
      .ok (out, Step.next host ⟨clk, .engine (.recover id generation)⟩
        (runSteps host .empty before)) :=
    atomic_ok.mp (Prod.ext ok rfl)
  have keys' := (Op.change run).keys keys
  have past : Past id generation (runSteps host (Step.next host
      ⟨clk, .engine (.recover id generation)⟩ (runSteps host .empty before)) after) :=
    runSteps_past after keys' (past_of_recover run)
  exact refuse clk' op id given carries (past.not_current (runSteps_keys after keys') le)

/-- The old worker of a recovered turn, and a worker of a generation never handed out. -/
theorem generation_fencing_recovered :
    Refused plainHost plainClock (.abort (Text.lit "r") 7) (runSteps plainHost .empty plainTurn) ∧
      Refused plainHost plainClock (.abort (Text.lit "r") 1) (runSteps plainHost
        (Step.next plainHost (plainStep (.recover (Text.lit "r") 1))
          (runSteps plainHost .empty plainTurn)) []) := by
  obtain ⟨stale, recovered⟩ := generation_fencing plainHost plainTurn
  refine ⟨stale _ _ _ _ rfl ?_, ?_⟩
  · have others : ((runSteps plainHost .empty plainTurn).turn? (Text.lit "r")).all
        (·.generation != 7) = true := by decide +kernel
    intro t found
    rw [found] at others
    simpa using others
  · obtain ⟨out, ok⟩ := exists_ok (x := (Step.exec plainHost (plainStep (.recover (Text.lit "r") 1))
      (runSteps plainHost .empty plainTurn)).1) (by decide +kernel)
    exact recovered _ _ _ out ok [] _ _ _ rfl (le_refl _)

end Cmpath
