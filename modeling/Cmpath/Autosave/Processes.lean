import Cmpath.Autosave.World

/-!
# What no interleaving loses

A step of a process keeps what holds in every world (`World.Inv`): a state that is written back was true
when it was read and still is. So no event of a followed file is lost with an update of the state
(`interleaved_no_loss`), and no call answers for a prompt that is not stored (`interleaved_answers`).
-/

namespace Cmpath
open Lib Lib.Txn

namespace Autosave

variable {py : Python} {cfg : Config} {clk : Nat → Clock} {db left : Db} {id : Int} {key : Text}
  {w w' : World}

/-! ## The invariant -/

/-- What holds in every world that is reached. -/
structure World.Inv (py : Python) (key : Text) (w : World) : Prop where
  formed : ∀ l ∈ w.complete, l.Formed py
  rest : Torn w.torn
  legible : Legible py w.db
  stands : ∀ id, (w.db.task? id).isSome → Stands py key w id (stateOf py w.db id)
  sound : ∀ p ∈ w.processes, p.Sound py key w

/-- What a step does to the store, and what holds of the process after it. -/
structure Advances (py : Python) (key : Text) (w : World) (left : Db) (more : List (Int × Turn))
    (sound : World → Prop) : Prop where
  onward : Onward w.db left
  legible : Legible py left
  stands : ∀ id, (left.task? id).isSome →
    Stands py key { w with db := left, saved := w.saved ++ more } id (stateOf py left id)
  sound : sound { w with db := left, saved := w.saved ++ more }

namespace World.Inv

variable {sound : World → Prop}

/-- A step that only reads. -/
theorem still (h : w.Inv py key) (after : sound w) : Advances py key w w.db [] sound := by
  have same : { w with db := w.db, saved := w.saved ++ [] } = w := by rw [List.append_nil]
  refine ⟨.refl _, h.legible, ?_, ?_⟩
  · rw [same]
    exact h.stands
  · rw [same]
    exact after

/-- A step that records nothing. -/
theorem quiet (h : w.Inv py key) (moves : Moves py (fun _ _ => False) (fun _ => False) w.db left) :
    ∀ id, (left.task? id).isSome →
      Stands py key { w with db := left, saved := w.saved ++ [] } id (stateOf py left id) := by
  have both := moves.keeps
    (P := fun db id s => Recorded w.saved py db id s ∧ Reached py key w.complete w.size db id s)
    (Q := fun db id s => Recorded (w.saved ++ []) py db id s ∧
      Reached py key w.complete w.size db id s)
    (fun _ => ⟨.empty, fun _ member => absurd member List.not_mem_nil⟩)
    (fun c old => ⟨old.1.change c (List.subset_append_left _ _) fun _ => False.elim,
      old.2.change c old.1 h.formed h.rest fun _ _ read => False.elim read⟩)
    fun id here => ⟨(h.stands id here).recorded, (h.stands id here).reached⟩
  exact fun id here => ⟨(both id here).1, (both id here).2⟩

/-- A batch: what it records of its task is what stands then. -/
theorem batch {new : List MessageRow} {s : State} {more : List (Int × Turn)} (h : w.Inv py key)
    (c : Committed py cfg w.db left id new s) (onward : Onward w.db left)
    (records : ∀ e, s.lastEvidence = some e → (left.task? id).isSome →
      Stands py key { w with db := left, saved := w.saved ++ more } id (s.reread py cfg e))
    (after : sound { w with db := left, saved := w.saved ++ more }) :
    Advances py key w left more sound := by
  refine ⟨onward, ⟨c.kept, fun other here => (c.states h.legible here).1⟩, fun other here => ?_, after⟩
  rcases (c.states h.legible here).2 with same | ⟨rfl, e, last, same⟩
  · rw [same]
    have later : Later py w { w with db := left, saved := w.saved ++ more } :=
      .of_onward h.formed onward
    exact (h.stands other (c.here.mp here)).later later fun m row _ => c.old row
  · rw [same]
    exact records e last here

/-- The project task is made. -/
theorem named {clock : Clock} {name : Text} (h : w.Inv py key)
    (made : createProject py clock name w.db = .ok (id, left)) :
    Advances py key w left [] fun w' => While w' id True := by
  have run : (MemoryOp.createTask (Text.lit "Autosave: " ++ name) [] [Text.lit "auto:" ++ name]
      (.obj [])).run py.toHost clock w.db = .ok (_, left) := responding_ok.mpr ⟨id, made, rfl⟩
  let c : Call := (clock, .inr (.createTask (Text.lit "Autosave: " ++ name) []
    [Text.lit "auto:" ++ name] (.obj [])))
  have exec : (callStep c).exec py.toHost w.db = (.ok _, left) := atomic_ok.mpr run
  have next : (callStep c).next py.toHost w.db = left := by
    unfold Step.next
    rw [exec]
  have quiet_ : ∀ g ∈ Call.gives py.toHost c w.db, g.stored.2 ≠ stateKey := by
    intro g member
    unfold Call.gives at member
    rw [exec] at member
    cases member
  have moves : Moves py (fun _ _ => False) (fun _ => False) w.db left := by
    rw [← next]
    exact h.legible.call c quiet_
  have onward : Onward w.db left := by
    rw [← next]
    exact .of_call h.legible.kept c
  exact ⟨onward, moves.legible, h.quiet moves,
    .of_here moves.legible (TaskMemory.createTask_alone made).here trivial⟩

end World.Inv

/-- What is read of a state is what stands. -/
theorem World.Inv.read {s : State} (h : w.Inv py key) (read : state py (some id) w.db = .ok s) :
    While w id (Stands py key w id s) := by
  obtain ⟨here, parsed⟩ := (state_ok_iff h.legible.kept).mp read
  rw [← stateOf_eq parsed]
  exact .of_here h.legible here (h.stands id here)

/-! ## A step of a turn -/

theorem knownTask_here {name : Text} (known : knownTask py db name = some id) :
    (db.task? id).isSome := by
  unfold knownTask at known
  obtain ⟨task, found, rfl⟩ := Option.map_eq_some_iff.mp known
  exact projectTask_here found

/-- The batch of a turn, whatever state it was decided on. -/
theorem World.Inv.storesTurn {t : Turn} {s : State} {p : Prepared} {r : SaveTurn} (h : w.Inv py key)
    (prepared : prepareText py t.prompt maxMessageChars = some p) (fresh : t.seenIn s p = false)
    (stands : While w id (Stands py key w id s))
    (commit : commitTurn cfg clk t id s p w.db = .ok (r, left)) :
    Advances py key w left (t.ledger (.ok r)) fun w' => t.Answered py w' r := by
  obtain ⟨m, rfl, user, content, _, _, c⟩ := commitTurn_committed h.legible.kept commit
  have onward := commitTurn_step commit
  have own := c.own m List.mem_cons_self
  have stored : m ∈ left.messages := by
    rw [c.messages]
    exact List.mem_append_right _ List.mem_cons_self
  refine h.batch c onward (fun e last here => ?_) ⟨List.mem_append_right _ List.mem_cons_self, p,
    prepared, le_trans stands.given onward.sequence, fun _ => ⟨m, stored, own, user, content⟩⟩
  obtain rfl := Option.some.inj last
  have old := stands.now (c.here.mp here)
  have sound : ((s.turned cfg t.key p.digest).payload cfg m.id).sound = true := by
    rcases c.facts with ⟨_, none_⟩ | ⟨_, e, _, _, same, _, sound⟩
    · cases none_
    · cases same
      exact sound
  have change : Change py (fun i u => (i, u) ∈ t.ledger (.ok (.saved id (citation id m.id)
      p.content.length p.truncated))) (fun _ => False) w.db left id s _ :=
    .turn (List.mem_singleton.mpr rfl) prepared fresh c.messages own content sound
  exact ⟨old.recorded.change change (List.subset_append_left _ _)
      fun _ said => List.mem_append_right _ said,
    old.reached.change change old.recorded h.formed h.rest fun _ _ read => False.elim read⟩

theorem Turning.next_sound {t : Turn} {at_ : Turning} (h : w.Inv py key)
    (sound : at_.Sound py key w cfg t) :
    Advances py key w (at_.next py cfg clk t w.db).2
      (Process.stores (.turn cfg clk t at_) (.turn cfg clk t (at_.next py cfg clk t w.db).1))
      fun w' => (at_.next py cfg clk t w.db).1.Sound py key w' cfg t := by
  cases at_ with
  | looking =>
    cases known : knownTask py w.db (projectName t.cwd) with
    | some id =>
      have step : looking.next py cfg clk t w.db = (.loading (some id), w.db) := by
        simp only [next, known]
      rw [step]
      exact h.still (.of_here h.legible (knownTask_here known) trivial)
    | none =>
      by_cases write : cfg.write = true
      · have step : looking.next py cfg clk t w.db = (.naming, w.db) := by
          simp only [next, known, if_pos write]
        rw [step]
        exact h.still write
      · have step : looking.next py cfg clk t w.db = (.loading none, w.db) := by
          simp only [next, known, if_neg write]
        rw [step]
        exact h.still (Bool.eq_false_iff.mpr write)
  | naming =>
    cases made : createProject py (clk 2) (projectName t.cwd) w.db with
    | error e =>
      have step : naming.next py cfg clk t w.db = (.raised e, w.db) := by
        simp only [next, atomic_of_error made]
      rw [step]
      exact h.still trivial
    | ok out =>
      obtain ⟨id, left⟩ := out
      have step : naming.next py cfg clk t w.db = (.loading (some id), left) := by
        simp only [next, atomic_ok.mpr made]
      rw [step]
      exact h.named made
  | loading taskId =>
    cases decides : planTurn py cfg t taskId w.db with
    | error e =>
      have step : (loading taskId).next py cfg clk t w.db = (.raised e, w.db) := by
        simp only [next, decides]
      rw [step]
      exact h.still trivial
    | ok plan =>
      cases plan with
      | store id s p =>
        have step : (loading taskId).next py cfg clk t w.db = (.storing id s p, w.db) := by
          simp only [next, decides]
        rw [step]
        cases planTurn_planned decides with
        | store read prepared fresh task =>
          subst task
          exact h.still ⟨prepared, fresh, h.read read⟩
      | answer r =>
        have step : (loading taskId).next py cfg clk t w.db = (.returned r, w.db) := by
          simp only [next, decides]
        rw [step]
        refine h.still ?_
        show t.Answered py w r
        cases planTurn_planned decides with
        | empty _ blank => exact blank
        | dry => trivial
        | @duplicate s p read prepared seen =>
          refine ⟨rfl, ?_⟩
          cases taskId with
          | none =>
            -- nothing is listed in the state of no task
            obtain rfl := Except.ok.inj read
            cases seen
          | some id =>
            refine ⟨id, rfl, (h.read read).mono fun _ stands => ?_⟩
            unfold Turn.seenIn at seen
            rcases Bool.or_eq_true_iff.mp seen with key_ | digest
            · obtain ⟨u, listed_, same⟩ := stands.recorded.seen _ (listed_iff.mp key_)
              exact .inl ⟨u, listed_, (Json.str.inj same).symm⟩
            · obtain ⟨m, stored, own, same⟩ := stands.recorded.hashes _ (listed_iff.mp digest)
              exact .inr ⟨p, prepared, m, stored, own, (Json.str.inj same).symm⟩
  | storing id s p =>
    obtain ⟨prepared, fresh, stands⟩ := sound
    cases commit : commitTurn cfg clk t id s p w.db with
    | error e =>
      have step : (storing id s p).next py cfg clk t w.db = (.raised e, w.db) := by
        simp only [next, atomic_of_error commit]
      rw [step]
      exact h.still trivial
    | ok out =>
      obtain ⟨r, left⟩ := out
      have step : (storing id s p).next py cfg clk t w.db = (.returned r, left) := by
        simp only [next, atomic_ok.mpr commit]
      rw [step]
      exact h.storesTurn prepared fresh stands commit
  | returned r => exact h.still sound
  | raised e => exact h.still trivial

/-! ## A step of a pass -/

/-- The batch of a pass, whatever state and digests it was decided on. -/
theorem World.Inv.storesPass {t : Transcript} {f : WireFile} {s : State} {start : Int} {reset : Bool}
    {done : Scan} {r : IngestReport} (h : w.Inv py key)
    (digests : ∀ r ∈ done.rows, r.prepared.digest = contentHash py r.prepared.content)
    (stands : While w id (Stands py key w id s))
    (awaits : cursorKey t.path = key → done.Awaits py w t id f)
    (commit : commitPass cfg clk t id s f start reset done w.db = .ok (r, left)) :
    Advances py key w left [] fun w' => cursorKey t.path = key → cfg.write = true →
      r.Holds py w' t f := by
  obtain ⟨task, upTo, added, _⟩ := commitPass_report commit
  obtain ⟨new, last, same, evidence, c⟩ := commitPass_committed h.legible.kept commit
  have onward := commitPass_step commit
  have old : ∀ m ∈ w.db.messages, m.taskId = id → m ∈ left.messages := fun m row _ => c.old row
  have stored : ∀ r ∈ done.rows, ∃ m ∈ left.messages, m.taskId = id ∧ m.content = r.prepared.content := by
    intro r listed_
    obtain ⟨m, row, own, _, content, _⟩ := stored_of_rows same listed_
    refine ⟨m, ?_, own, content⟩
    rw [c.messages]
    exact List.mem_append_right _ row
  refine h.batch c onward (fun e recorded here => ?_) fun own write => ?_
  · obtain rfl : last = some e := recorded
    have before := stands.now (c.here.mp here)
    have cursors : ∀ c ∈ (s.after cfg t f start done (some e)).cursors,
        ∃ cursor : Cursor, c.2 = cursor.json := by
      intro c member
      rcases mem_after_cursors member with old | ⟨_, rfl⟩
      · exact before.recorded.cursors c old
      · exact ⟨done.cursor f, cursorOf_eq f done⟩
    constructor
    · refine .reread (fun j member => ?_) (fun j member => ?_) cursors ?_ ?_
      · obtain ⟨u, listed_, same⟩ := before.recorded.seen j member
        exact ⟨u, List.mem_append_left _ listed_, same⟩
      · obtain ⟨x, kept, rfl⟩ := mem_heldItems.mp member
        rcases mem_hashed (mem_lastOf kept) with old_ | ⟨r, listed_, rfl⟩
        · obtain ⟨m, row, own, rfl⟩ := before.recorded.hashes x old_
          exact ⟨m, old m row own, own, rfl⟩
        · obtain ⟨m, row, own, content⟩ := stored r listed_
          refine ⟨m, row, own, ?_⟩
          rw [digests r listed_, content]
          rfl
      · show ((State.passed cfg s t f start done).cursors.map Prod.fst).Nodup
        unfold State.passed
        dsimp only
        split
        · exact assign_keys before.recorded.keys
        · exact before.recorded.keys
      · rcases evidence with ⟨_, last⟩ | ⟨e', equal_, there⟩
        · obtain ⟨m, row, named, own⟩ := before.recorded.evidence e last.symm
          exact ⟨m, old m row own, named, own⟩
        · obtain rfl := Option.some.inj equal_
          exact there
    · refine Reached.reread (fun c member => ?_) cursors
      rcases mem_after_cursors member with old_ | ⟨_, equal_⟩
      · exact (before.reached c old_).rows old
      · obtain ⟨named, equal_⟩ := Prod.mk.inj equal_
        obtain rfl : c = done.cursor f := Cursor.json_inj (equal_.trans (cursorOf_eq f done))
        have pending := awaits named.symm
        exact (pending.tells.now (c.here.mp here) left old stored).1
  · have pending := awaits own
    refine ⟨⟨pending.read.size, pending.read.events⟩, id, task,
      le_trans pending.tells.given onward.sequence, fun here => ?_⟩
    obtain ⟨tells, whole⟩ := pending.tells.now (c.here.mp here) left old stored
    unfold IngestReport.cursor
    rw [upTo, added]
    exact ⟨⟨tells.covered, tells.within, tells.sized, fun through => absurd through Bool.false_ne_true⟩,
      fun calm room => whole (pending.calm calm room)⟩

/-- What a torn line has is not read. -/
theorem fragments_torn {complete torn : List Line} (formed : ∀ l ∈ complete, l.Formed py)
    (rest : Torn torn) : fragments py (complete ++ torn) = fragments py complete := by
  have read : wireEventsFrom py 0 0 (complete ++ torn) = _ :=
    wireEventsFrom_formed formed rest (by omega)
  have all : (wireEventsFrom py 0 0 complete).1.filter (fun f => decide ((0 : Int) < f.line)) =
      (wireEventsFrom py 0 0 complete).1 := by
    rw [List.filter_eq_self]
    intro f member
    have after := (wireEventsFrom_lines 0 0 complete f member).2
    simpa using after
  unfold fragments
  rw [read]
  exact all

theorem World.Inv.reads {now : WireFile} (h : w.Inv py key) (shows : w.Shows now) {f : WireFile}
    (size : f.size ≤ w.size) (lines : f.lines = now.lines) : f.Read py w := by
  refine ⟨size, fun x member => ?_⟩
  rwa [lines, shows.lines, fragments_torn h.formed h.rest] at member

/-- The scan of a pass that writes, whatever state and digests it is made with. -/
theorem World.Inv.scans {t : Transcript} {f now : WireFile} {s : State} {start : Int}
    {stored : List Text} {done : Scan} (h : w.Inv py key)
    (known : While w id (Stands py key w id s ∧ s.Begins t.path start ∧
      ∀ d ∈ stored, ∃ m ∈ w.db.messages, m.taskId = id ∧ contentHash py m.content = d))
    (size : f.size ≤ w.size) (same : cursorKey t.path = key) (shows : w.Shows now)
    (ran : scan py (fun digest => listed digest s.hashes || stored.contains digest) t.late
      (wireCoalesced py start now.lines).2 0 ⟨[], start, false⟩ (wireCoalesced py start now.lines).1 =
        .ok done) :
    done.Awaits py w t id { f with lines := now.lines } := by
  refine ⟨h.reads shows size rfl, fun calm room => scan_through ran calm room,
    known.mono fun _ both left kept rows => ?_⟩
  obtain ⟨stands, begins, digests⟩ := both
  have knows : ∀ digest, (listed digest s.hashes || stored.contains digest) = true →
      ∃ m ∈ left.messages, m.taskId = id ∧ contentHash py m.content = digest := by
    intro digest hit
    rcases Bool.or_eq_true_iff.mp hit with window | filter
    · obtain ⟨m, row, own, equal_⟩ := stands.recorded.hashes _ (listed_iff.mp window)
      exact ⟨m, kept m row own, own, (Json.str.inj equal_).symm⟩
    · obtain ⟨m, row, own, equal_⟩ := digests digest (List.contains_iff_mem.mp filter)
      exact ⟨m, kept m row own, own, equal_⟩
  have covers : done.Covers py w.complete left id := by
    rcases begins with zero | ⟨cursor, member, at_⟩
    · refine scan_covers ran shows.lines h.formed h.rest knows (fun x member passed => ?_) (by omega) rows
      have after := (wireEventsFrom_lines 0 0 w.complete x member).1
      omega
    · rw [same] at member
      have tells := stands.reached cursor member
      have within_ := tells.within
      refine scan_covers ran shows.lines h.formed h.rest knows (fun x member passed => ?_) (by omega) rows
      exact (tells.covered x member (by omega)).rows kept
  refine ⟨⟨covers.covered, covers.within, size, fun through _ => covers.whole ?_⟩, fun through => ?_⟩
  · simpa [Scan.cursor] using through
  · rw [shows.lines, fragments_torn h.formed h.rest]
    exact covers.whole through

theorem Tasked.mono {taskId : Option Int} {P Q : Int → Prop} (h : Tasked w cfg taskId P)
    (keep : ∀ id, taskId = some id → P id → Q id) : Tasked w cfg taskId Q := by
  cases taskId with
  | none => exact h
  | some id => exact While.mono h fun _ => keep id rfl

/-- Where a scan begins that a marker asks for. -/
theorem Stands.begins {s : State} {t : Transcript} {entry : Entry} {now : WireFile} {start : Int}
    {reset : Bool} (h : Stands py key w id s)
    (read : Entry.ofJson ((Json.obj s.cursors).get? (cursorKey t.path)) = .ok entry)
    (resume : resumeAt t.rebuild entry now = .ok (.scan start reset)) : s.Begins t.path start := by
  rcases resumeAt_scan resume with zero | same
  · exact .inl zero
  · rcases h.recorded.entry read with zero | ⟨cursor, member, rfl⟩
    · exact .inl (same.trans zero)
    · exact .inr ⟨cursor, member, same⟩

/-- A file that is as a cursor found it is told of by the cursor. -/
theorem Stands.unchanged {s : State} {t : Transcript} {entry : Entry} {now : WireFile} {start : Int}
    (h : Stands py key w id s) (inv : w.Inv py key) (shows : w.Shows now)
    (same : cursorKey t.path = key)
    (read : Entry.ofJson ((Json.obj s.cursors).get? (cursorKey t.path)) = .ok entry)
    (resume : resumeAt t.rebuild entry now = .ok (.unchanged start)) :
    (⟨start, now.mtime, now.size, now.head, false⟩ : Cursor).Tells py w.complete w.size w.db id ∧
      ∀ x ∈ fragments py now.lines, x.line ≤ start := by
  obtain ⟨at_, further, through, sized⟩ := resumeAt_unchanged resume
  rcases h.recorded.entry read with zero | ⟨cursor, member, rfl⟩
  · omega
  · rw [same] at member
    have tells := h.reached cursor member
    have equal_ : cursor.size = w.size := by
      rw [← shows.size]
      simpa [Cursor.entry, isNull, equal] using sized
    rw [at_, shows.lines, fragments_torn inv.formed inv.rest]
    exact ⟨⟨tells.covered, tells.within, le_of_eq shows.size, fun through => absurd through Bool.false_ne_true⟩,
      tells.ended through equal_⟩

theorem Passing.next_sound {t : Transcript} {at_ : Passing} {now : WireFile} (h : w.Inv py key)
    (own : cursorKey t.path = key → w.Shows now) (sound : at_.Sound py key w cfg t) :
    Advances py key w (at_.next py cfg clk t now w.db).2 []
      fun w' => (at_.next py cfg clk t now w.db).1.Sound py key w' cfg t := by
  cases at_ with
  | looking =>
    cases known : knownTask py w.db t.project with
    | some id =>
      have step : looking.next py cfg clk t now w.db = (.loading (some id), w.db) := by
        simp only [next, known]
      rw [step]
      exact h.still (.of_here h.legible (knownTask_here known) trivial)
    | none =>
      by_cases write : cfg.write = true
      · have step : looking.next py cfg clk t now w.db = (.naming, w.db) := by
          simp only [next, known, if_pos write]
        rw [step]
        exact h.still write
      · have step : looking.next py cfg clk t now w.db = (.loading none, w.db) := by
          simp only [next, known, if_neg write]
        rw [step]
        exact h.still (Bool.eq_false_iff.mpr write)
  | naming =>
    cases made : createProject py (clk 0) t.project w.db with
    | error e =>
      have step : naming.next py cfg clk t now w.db = (.raised e, w.db) := by
        simp only [next, atomic_of_error made]
      rw [step]
      exact h.still trivial
    | ok out =>
      obtain ⟨id, left⟩ := out
      have step : naming.next py cfg clk t now w.db = (.loading (some id), left) := by
        simp only [next, atomic_ok.mpr made]
      rw [step]
      exact h.named made
  | loading taskId =>
    cases read : state py taskId w.db with
    | error e =>
      have step : (loading taskId).next py cfg clk t now w.db = (.raised e, w.db) := by
        simp only [next, read]
      rw [step]
      exact h.still trivial
    | ok s =>
      cases listed_ : Entry.ofJson ((Json.obj s.cursors).get? (cursorKey t.path)) with
      | error e =>
        have step : (loading taskId).next py cfg clk t now w.db = (.raised e, w.db) := by
          simp only [next, read, listed_]
        rw [step]
        exact h.still trivial
      | ok entry =>
        have step : (loading taskId).next py cfg clk t now w.db = (.marking taskId s entry, w.db) := by
          simp only [next, read, listed_]
        rw [step]
        refine h.still ?_
        show Tasked w cfg taskId _
        cases taskId with
        | none => exact sound
        | some id => exact (h.read read).mono fun _ stands => ⟨stands, listed_⟩
  | marking taskId s entry =>
    cases resume : resumeAt t.rebuild entry now with
    | error e =>
      have step : (marking taskId s entry).next py cfg clk t now w.db = (.raised e, w.db) := by
        simp only [next, resume]
      rw [step]
      exact h.still trivial
    | ok chosen =>
      cases chosen with
      | unchanged start =>
        have step : (marking taskId s entry).next py cfg clk t now w.db =
            (.returned { status := .unchanged, taskId := taskId, path := t.path.text,
                         scannedTo := start } now, w.db) := by
          simp only [next, resume]
        rw [step]
        refine h.still fun same write => ?_
        cases taskId with
        | none => exact absurd (write.symm.trans sound) (by decide)
        | some id =>
          refine ⟨h.reads (own same) (le_of_eq (own same).size) rfl, id, rfl,
            While.mono sound fun _ known => ?_⟩
          obtain ⟨tells, whole⟩ := known.1.unchanged h (own same) same known.2 resume
          exact ⟨tells, fun _ _ => whole⟩
      | scan start reset =>
        have step : (marking taskId s entry).next py cfg clk t now w.db =
            (.filtering taskId s now start reset, w.db) := by
          simp only [next, resume]
        rw [step]
        exact h.still ⟨Tasked.mono sound fun _ _ known => ⟨known.1, known.1.begins known.2 resume⟩,
          fun same => le_of_eq (own same).size⟩
  | filtering taskId s f start reset =>
    refine h.still ⟨Tasked.mono sound.1 fun id task known => ⟨known.1, known.2, fun d member => ?_⟩,
      sound.2⟩
    subst task
    have listed_ : (listed d State.empty.hashes || (if reset then
        storedWireDigests py (some id) (cursorKey t.path) w.db else []).contains d) = true :=
      List.contains_iff_mem.mpr member
    exact known_stored (s := .empty) (fun _ none_ => absurd none_ List.not_mem_nil) listed_
  | reading taskId s f start reset stored =>
    cases ran : scan py (fun digest => listed digest s.hashes || stored.contains digest) t.late
        (wireCoalesced py start now.lines).2 0 ⟨[], start, false⟩
        (wireCoalesced py start now.lines).1 with
    | error e =>
      have step : (reading taskId s f start reset stored).next py cfg clk t now w.db =
          (.raised e, w.db) := by
        simp only [next, ran]
      rw [step]
      exact h.still trivial
    | ok done =>
      cases taskId with
      | none =>
        have step : (reading none s f start reset stored).next py cfg clk t now w.db =
            (.returned (dryReport t none reset done) { f with lines := now.lines }, w.db) := by
          simp only [next, ran]
        rw [step]
        exact h.still fun _ write => absurd (write.symm.trans sound.1) (by decide)
      | some id =>
        by_cases dry : (!cfg.write) = true
        · have step : (reading (some id) s f start reset stored).next py cfg clk t now w.db =
              (.returned (dryReport t (some id) reset done) { f with lines := now.lines }, w.db) := by
            simp only [next, ran, if_pos dry]
          rw [step]
          refine h.still fun _ write => absurd dry ?_
          rw [write]
          decide
        · have awaits : cursorKey t.path = key → done.Awaits py w t id { f with lines := now.lines } :=
            fun same => h.scans sound.1 (sound.2 same) same (own same) ran
          by_cases idle : (done.rows.isEmpty && decide (done.scannedTo ≤ start)) = true
          · have step : (reading (some id) s f start reset stored).next py cfg clk t now w.db =
                (.returned { status := .clean, taskId := some id, path := t.path.text
                             scannedTo := done.scannedTo, resetCursor := reset }
                  { f with lines := now.lines }, w.db) := by
              simp only [next, ran, if_neg dry, if_pos idle]
            rw [step]
            rw [Bool.and_eq_true, List.isEmpty_iff] at idle
            refine h.still fun same _ => ⟨(awaits same).read, id, rfl,
              (awaits same).tells.mono fun _ pending => ?_⟩
            obtain ⟨tells, whole⟩ := pending w.db (fun _ row _ => row) (by rw [idle.1]; simp)
            exact ⟨⟨tells.covered, tells.within, tells.sized,
              fun through => absurd through Bool.false_ne_true⟩, fun calm room =>
                whole ((awaits same).calm calm (by rw [idle.1]; exact room))⟩
          · have step : (reading (some id) s f start reset stored).next py cfg clk t now w.db =
                (.storing id s { f with lines := now.lines } start reset done, w.db) := by
              simp only [next, ran, if_neg dry, if_neg idle]
            rw [step]
            refine h.still ⟨fun r member => ?_, While.mono sound.1 fun _ known => known.1, awaits⟩
            obtain ⟨k, rows, _⟩ := scan_rows ran (by simp [passCap])
            rw [rows, List.nil_append] at member
            obtain ⟨m, _, made⟩ := List.mem_filterMap.mp member
            exact (row_fresh made).1
  | storing id s f start reset done =>
    obtain ⟨digests, stands, awaits⟩ := sound
    cases commit : commitPass cfg clk t id s f start reset done w.db with
    | error e =>
      have step : (storing id s f start reset done).next py cfg clk t now w.db = (.raised e, w.db) := by
        simp only [next, atomic_of_error commit]
      rw [step]
      exact h.still trivial
    | ok out =>
      obtain ⟨r, left⟩ := out
      have step : (storing id s f start reset done).next py cfg clk t now w.db =
          (.returned r f, left) := by
        simp only [next, atomic_ok.mpr commit]
      rw [step]
      exact h.storesPass digests stands awaits commit
  | returned r f => exact h.still sound
  | raised e => exact h.still trivial

/-! ## Every interleaving -/

theorem Later.of_processes {processes : List Process} (formed : ∀ l ∈ w.complete, l.Formed py) :
    Later py w { w with processes := processes } :=
  ⟨.refl _, List.Subset.refl _, formed, [], (List.append_nil _).symm, le_refl _,
    fun some_ => absurd rfl some_⟩

namespace World.Inv

/-- Processes come and go. -/
theorem processes {processes : List Process} (h : w.Inv py key)
    (sound : ∀ p ∈ processes, p.Sound py key w) : { w with processes := processes }.Inv py key := by
  have later : Later py w { w with processes := processes } := .of_processes h.formed
  exact ⟨h.formed, h.rest, h.legible, fun id here => (h.stands id here).later later fun _ row _ => row,
    fun p member => (sound p member).later later⟩

/-- The store goes on, and the others do not notice. -/
theorem advance {more : List (Int × Turn)} {sound : World → Prop} (h : w.Inv py key)
    (step : Advances py key w left more sound) :
    { w with db := left, saved := w.saved ++ more }.Inv py key :=
  ⟨h.formed, h.rest, step.legible, step.stands, fun p member =>
    (h.sound p member).later (.of_onward h.formed step.onward)⟩

/-- One process takes a step. -/
theorem step {before after : List Process} {p : Process} {now : WireFile} (h : w.Inv py key)
    (there : w.processes = before ++ p :: after) (own : p.Over key → w.Shows now) :
    (w.step py now before after p).Inv py key := by
  have mine : p.Sound py key w := by
    refine h.sound p ?_
    rw [there]
    exact List.mem_append_right _ List.mem_cons_self
  have step : Advances py key w (p.next py now w.db).2 (p.stores (p.next py now w.db).1)
      ((p.next py now w.db).1.Sound py key) := by
    cases p with
    | turn cfg clk t at_ => exact Turning.next_sound h mine
    | pass cfg clk t at_ => exact Passing.next_sound h own mine
  have advanced := h.advance step
  refine advanced.processes fun q member => ?_
  rcases List.mem_append.mp member with first | rest
  · refine advanced.sound q ?_
    show q ∈ w.processes
    rw [there]
    exact List.mem_append_left _ first
  · rcases List.mem_cons.mp rest with rfl | last
    · exact step.sound
    · refine advanced.sound q ?_
      show q ∈ w.processes
      rw [there]
      exact List.mem_append_right _ (List.mem_cons_of_mem _ last)

end World.Inv

theorem Process.Fresh.sound {p : Process} (h : p.Fresh) : p.Sound py key w := by
  cases p with
  | turn cfg clk t at_ =>
    obtain rfl : at_ = .looking := h
    trivial
  | pass cfg clk t at_ =>
    obtain rfl : at_ = .looking := h
    trivial

theorem Interleaved.inv (run : Interleaved py key w) : w.Inv py key := by
  induction run with
  | start size formed rest =>
    exact ⟨formed, rest, Inv.start.legible, fun _ here => absurd here Bool.false_ne_true,
      fun _ member => absurd member List.not_mem_nil⟩
  | @grow w _ more rest larger formed torn le longer ih =>
    have later : Later py w { w with complete := w.complete ++ more, torn := rest, size := larger } :=
      ⟨.refl _, List.Subset.refl _, ih.formed, more, rfl, le, longer⟩
    refine ⟨fun l member => ?_, torn, ih.legible,
      fun id here => (ih.stands id here).later later fun _ row _ => row,
      fun p member => (ih.sound p member).later later⟩
    rcases List.mem_append.mp member with old | new
    · exact ih.formed l old
    · exact formed l new
  | @call w _ c other ih =>
    have moves : Moves py (fun _ _ => False) (fun _ => False) w.db ((callStep c).next py.toHost w.db) :=
      ih.legible.call c other
    have step : Advances py key w ((callStep c).next py.toHost w.db) [] fun _ => True :=
      ⟨.of_call ih.legible.kept c, moves.legible, ih.quiet moves, trivial⟩
    have advanced := ih.advance step
    simp only [List.append_nil] at advanced
    exact advanced
  | @launch w _ p fresh ih =>
    refine ih.processes fun q member => ?_
    rcases List.mem_append.mp member with old | new
    · exact ih.sound q old
    · rw [List.mem_singleton.mp new]
      exact fresh.sound
  | @crash w _ before after p there ih =>
    refine ih.processes fun q member => ih.sound q ?_
    rw [there]
    rcases List.mem_append.mp member with first | last
    · exact List.mem_append_left _ first
    · exact List.mem_append_right _ (List.mem_cons_of_mem _ last)
  | step _ there now own ih => exact ih.step there own

/-- **No interleaving loses a transcript.** Whatever processes run, crash or write back old states, every
    state can be read, and every event up to the line that the cursor of the file names is in a group of
    the file whose text the task stores. The same holds up to the line that a pass has reported, from
    then on and as long as its task is there, and of every event it read unless it was stopped by its
    deadline or the cap. -/
theorem interleaved_no_loss (run : Interleaved py key w) :
    (∀ id, (w.db.task? id).isSome → ∃ s, state py (some id) w.db = .ok s) ∧
    (∀ id s e, state py (some id) w.db = .ok s →
      Entry.ofJson ((Json.obj s.cursors).get? key) = .ok e →
      CollisionFree py (fragments py w.complete) w.db →
      ∀ x ∈ fragments py w.complete, x.line ≤ e.start →
        Saved py (fragments py w.complete) w.db id x) ∧
    ∀ cfg clk t r f, Process.pass cfg clk t (.returned r f) ∈ w.processes → cfg.write = true →
      cursorKey t.path = key → CollisionFree py (fragments py w.complete) w.db →
      ∃ id, r.taskId = some id ∧ ((w.db.task? id).isSome →
        (∀ x ∈ fragments py w.complete, x.line ≤ r.scannedTo →
          Saved py (fragments py w.complete) w.db id x) ∧
        ((∀ n, t.late n = false) → r.added < passCap →
          ∀ x ∈ fragments py f.lines, Saved py (fragments py w.complete) w.db id x)) := by
  have inv := run.inv
  refine ⟨fun id here => ⟨_, inv.legible.state here⟩, fun id s e read cursor free x member before => ?_,
    fun cfg clk t r f there write own free => ?_⟩
  · have here := ((state_ok_iff inv.legible.kept).mp read).1
    have stands := (inv.read read).now here
    rcases stands.recorded.entry cursor with zero | ⟨c, listed_, rfl⟩
    · have after := (wireEventsFrom_lines 0 0 w.complete x member).1
      omega
    · exact ((stands.reached c listed_).covered x member before).saved free
  · have holds : r.Holds py w t f := inv.sound _ there own write
    obtain ⟨id, task, tells⟩ := holds.tells
    refine ⟨id, task, fun here => ?_⟩
    obtain ⟨told, whole⟩ := tells.now here
    exact ⟨fun x member far => (told.covered x member far).saved free, fun calm room x member =>
      (told.covered x (holds.read.events x member) (whole calm room x member)).saved free⟩

/-- The file of `tornPrompted`. -/
def promptedFile : WireFile := ⟨[.event hiPrompt, .broken], .int 1, 70, Text.lit "d7fcf6d8d79aa752"⟩

/-- A prompt that is saved next to it. -/
def byeTurn : Turn := { sessionId := Text.lit "s", cwd := none, prompt := Text.lit "bye" }

/-- Both calls are launched. -/
def raced : World :=
  ⟨.empty, [.event hiPrompt], [.broken], 70,
    [.pass {} (fun _ => plainClock) tornPrompted .looking,
      .turn {} (fun _ => plainClock) byeTurn .looking], []⟩

/-- The turn reads the state of its new task, a whole pass runs, and the turn writes the state back. -/
def overwritten : World := raced.schedule asciiPython promptedFile [1, 1, 1, 0, 0, 0, 0, 0, 0, 1]

theorem overwritten_run : Interleaved asciiPython (cursorKey tornPrompted.path) overwritten := by
  have start : Interleaved asciiPython (cursorKey tornPrompted.path)
      ⟨.empty, [.event hiPrompt], [.broken], 70, [], []⟩ :=
    .start 70 (fun l member => by rw [List.mem_singleton.mp member]; exact fun _ => rfl) (.inr ⟨[], rfl⟩)
  have pass : Process.Fresh (.pass {} (fun _ => plainClock) tornPrompted .looking) := rfl
  have turn : Process.Fresh (.turn {} (fun _ => plainClock) byeTurn .looking) := rfl
  exact ((start.launch pass).launch turn).schedule ⟨rfl, rfl⟩

/-- What a process has answered. -/
def Process.answer : Process → Option (SaveTurn ⊕ IngestReport)
  | .turn _ _ _ (.returned r) => some (.inl r)
  | .pass _ _ _ (.returned r _) => some (.inr r)
  | _ => none

/-- A call that was launched and has answered is in the world with its answer. -/
theorem World.returned_turn {now : WireFile} {order : List Nat} {i : Nat} {r : SaveTurn} (w : World)
    (placed : w.processes[i]? = some (.turn cfg clk t .looking))
    (given : ((w.schedule py now order).processes[i]?.bind Process.answer).bind Sum.getLeft? = some r) :
    .turn cfg clk t (.returned r) ∈ (w.schedule py now order).processes := by
  obtain ⟨q, there, launched⟩ := World.schedule_launched py now order placed
  rw [there] at given
  cases q with
  | pass => cases launched
  | turn cfg clk t at_ =>
    cases launched
    cases at_ with
    | returned r' =>
      obtain rfl : r' = r := Option.some.inj given
      exact List.mem_of_getElem? there
    | _ => cases given

theorem World.returned_pass {t : Transcript} {now : WireFile} {order : List Nat} {i : Nat}
    {r : IngestReport} (w : World) (placed : w.processes[i]? = some (.pass cfg clk t .looking))
    (given : ((w.schedule py now order).processes[i]?.bind Process.answer).bind Sum.getRight? = some r) :
    ∃ f, .pass cfg clk t (.returned r f) ∈ (w.schedule py now order).processes := by
  obtain ⟨q, there, launched⟩ := World.schedule_launched py now order placed
  rw [there] at given
  cases q with
  | turn => cases launched
  | pass cfg clk t at_ =>
    cases launched
    cases at_ with
    | returned r' f =>
      obtain rfl : r' = r := Option.some.inj given
      exact ⟨f, List.mem_of_getElem? there⟩
    | _ => cases given

/-- The turn has lost the cursor of the pass, and the task has the prompt of the file all the same. -/
theorem interleaved_no_loss_overwritten :
    (stateOf asciiPython overwritten.db 1).cursors = [] ∧ ∃ r f id,
      Process.pass {} (fun _ => plainClock) tornPrompted (.returned r f) ∈ overwritten.processes ∧
        r.taskId = some id ∧ ∀ x ∈ fragments asciiPython f.lines,
          Saved asciiPython (fragments asciiPython overwritten.complete) overwritten.db id x := by
  have lost : (stateOf asciiPython overwritten.db 1).cursors.isEmpty = true := by decide +kernel
  have contents : overwritten.db.messages.map (·.content) = [Text.lit "hi", Text.lit "bye"] := by
    decide +kernel
  have here : (overwritten.db.task? 1).isSome = true := by decide +kernel
  have answered : ((overwritten.processes[0]?.bind Process.answer).bind Sum.getRight?).map
      (fun r => (r.added, r.taskId)) = some (1, some 1) := by decide +kernel
  have apart : contentHash asciiPython (Text.lit "bye") ≠ contentHash asciiPython (Text.lit "hi") := by
    decide +kernel
  have content : ∀ x ∈ fragments asciiPython overwritten.complete,
      ((messageOf ⟨x, []⟩).prepared asciiPython).map (·.content) = some (Text.lit "hi") := by
    decide +kernel
  have one : (fragments asciiPython overwritten.complete).length = 1 := by decide +kernel
  obtain ⟨x, single⟩ := List.length_eq_one_iff.mp one
  have free : CollisionFree asciiPython (fragments asciiPython overwritten.complete) overwritten.db := by
    intro m stored f g p group made digest
    have listed_ : m.content ∈ [Text.lit "hi", Text.lit "bye"] := by
      rw [← contents]
      exact List.mem_map_of_mem stored
    rw [single] at group content
    have same := content x List.mem_cons_self
    rw [← group.single, made] at same
    obtain hi : p.content = Text.lit "hi" := Option.some.inj same
    rw [prepared_digest made, hi] at digest
    rw [hi]
    rcases List.mem_cons.mp listed_ with equal_ | bye
    · exact equal_
    · rw [List.mem_singleton.mp bye] at digest
      exact absurd digest apart
  obtain ⟨r, given, told⟩ := Option.map_eq_some_iff.mp answered
  obtain ⟨added, task⟩ := Prod.mk.inj told
  obtain ⟨f, listed_⟩ := raced.returned_pass (i := 0) rfl given
  obtain ⟨id, named, saved⟩ := (interleaved_no_loss overwritten_run).2.2 _ _ _ r f listed_ rfl rfl free
  obtain rfl : id = 1 := Option.some.inj (named.symm.trans task)
  refine ⟨List.isEmpty_iff.mp lost, r, f, 1, listed_, task, (saved here).2 (fun _ => rfl) ?_⟩
  show r.added < passCap
  have few : r.added = 1 := added
  rw [few]
  decide

/-- **No interleaving answers for a prompt that is not stored.** A call of `save_turn` that says a prompt
    was saved has its row in the task; one that says it is a duplicate has a saved turn with its key or
    a row with its digest there, also where the state it read was old. -/
theorem interleaved_answers (run : Interleaved py key w) {t : Turn} {r : SaveTurn}
    (there : .turn cfg clk t (.returned r) ∈ w.processes) : t.Answered py w r :=
  run.inv.sound _ there

/-- The turn that wrote an old state back answers for its prompt. -/
theorem interleaved_answers_overwritten :
    ∃ r, Process.turn {} (fun _ => plainClock) byeTurn (.returned r) ∈ overwritten.processes ∧
      byeTurn.Answered asciiPython overwritten r := by
  have answered : ((overwritten.processes[1]?.bind Process.answer).bind Sum.getLeft?).isSome = true := by
    decide +kernel
  obtain ⟨r, given⟩ := Option.isSome_iff_exists.mp answered
  have listed_ := raced.returned_turn (i := 1) rfl given
  exact ⟨r, listed_, interleaved_answers overwritten_run listed_⟩

end Autosave

end Cmpath
