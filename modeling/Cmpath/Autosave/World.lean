import Cmpath.Autosave.Interleaved

/-!
# Processes over one store

Any number of processes call autosave on one store, among calls of the two writers, while a file grows
(`Interleaved`). What a process has read may be old when its batch opens, and the batch writes the state
it read back whole: updates of the state can be lost. What is true of a state stays true of it as long
as its task is there (`Later`), and so does what a process relies on (`Process.Sound`).
-/

namespace Cmpath
open Lib Lib.Txn

namespace Autosave

variable {py : Python} {cfg : Config} {clk : Nat → Clock} {db left : Db} {id : Int} {key : Text}

/-! ## Stores that only gain -/

/-- A task that was given does not come back once it is gone, and keeps its rows until then. -/
structure Onward (a b : Db) : Prop where
  sequence : a.sequence.tasks ≤ b.sequence.tasks
  tasks : ∀ id ≤ a.sequence.tasks, (b.task? id).isSome → (a.task? id).isSome
  rows : ∀ id, (b.task? id).isSome → ∀ m ∈ a.messages, m.taskId = id → m ∈ b.messages

namespace Onward

theorem refl (db : Db) : Onward db db := ⟨le_refl _, fun _ _ => id, fun _ _ _ member _ => member⟩

theorem of_factStep {places : List (Int × Text)} (h : FactStep places db left) : Onward db left :=
  ⟨h.sequence, h.tasks, fun _ _ _ member _ => h.messages.subset member⟩

theorem of_gone {gone : Int} (h : TaskGone gone db left) : Onward db left := by
  refine ⟨le_of_eq h.sequence.symm, fun id _ here => ?_, fun id here => (Apart.of_gone h).rows here⟩
  obtain ⟨row, found⟩ := Option.isSome_iff_exists.mp here
  have listed := List.mem_of_find?_eq_some found
  rw [h.tasks] at listed
  unfold Db.task?
  rw [List.find?_isSome]
  exact ⟨row, (Table.mem_delete.mp listed).1, by simpa using task?_id found⟩

/-- A call of the two writers. -/
theorem of_call {host : Host} (kept : Kept host db) (call : Call) :
    Onward db ((callStep call).next host db) := by
  obtain ⟨_, ordered⟩ := kept.sequenced
  have keys := kept.reachable.messageKeys
  unfold Step.next
  cases run : (callStep call).exec host db with
  | mk result db' =>
    cases result with
    | error e =>
      rw [atomic_error run]
      exact refl db
    | ok out =>
      obtain ⟨clk, op | op⟩ := call
      · exact of_factStep (Op.factStep (atomic_ok.mp run))
      · rcases MemoryOp.factStep keys ordered.backed (atomic_ok.mp run) with step | ⟨_, _, gone⟩
        · exact of_factStep step
        · exact of_gone gone

end Onward

theorem storeState_step {clock : Clock} {s : State} {u : Unit}
    (h : storeState cfg clock id s db = .ok (u, left)) : ∃ places, FactStep places db left := by
  unfold storeState at h
  cases last : s.lastEvidence with
  | none =>
    rw [last] at h
    obtain ⟨_, rfl⟩ := pure_ok.mp h
    exact ⟨[], .refl left⟩
  | some e =>
    rw [last] at h
    exact ⟨_, TaskMemory.setFact_step h⟩

theorem append_step {clock : Clock} {role content : Text} {source : Json} {evidenceId : Int}
    (h : TaskMemory.append clock id role content source db = .ok (evidenceId, left)) :
    FactStep [] db left :=
  .of_sparing (TaskMemory.keeps_append _ (fun _ => trivial) (fun _ _ _ => trivial) _ _ _ _ _ _ _ h)

theorem appendRows_step {clock : Nat → Clock} {t : Transcript} {s s' : State} {rows : List Row}
    (h : appendRows cfg clock t id s rows db = .ok (s', left)) : ∃ places, FactStep places db left := by
  induction rows generalizing s db with
  | nil =>
    obtain ⟨_, rfl⟩ := pure_ok.mp h
    exact ⟨[], .refl left⟩
  | cons r rest ih =>
    unfold appendRows at h
    obtain ⟨_, mid, put, later⟩ := bind_ok.mp h
    obtain ⟨places, step⟩ := ih later
    exact ⟨_, (append_step put).trans step⟩

theorem commitTurn_step {t : Turn} {s : State} {p : Prepared} {r : SaveTurn}
    (h : commitTurn cfg clk t id s p db = .ok (r, left)) : Onward db left := by
  unfold commitTurn at h
  obtain ⟨_, mid, put, h⟩ := bind_ok.mp h
  obtain ⟨_, last, stored, h⟩ := bind_ok.mp h
  obtain ⟨_, rfl⟩ := pure_ok.mp h
  obtain ⟨places, step⟩ := storeState_step stored
  exact .of_factStep ((append_step put).trans step)

theorem commitPass_step {t : Transcript} {s : State} {f : WireFile} {start : Int} {reset : Bool}
    {done : Scan} {r : IngestReport}
    (h : commitPass cfg clk t id s f start reset done db = .ok (r, left)) : Onward db left := by
  unfold commitPass at h
  obtain ⟨_, mid, rows, h⟩ := bind_ok.mp h
  obtain ⟨_, last, stored, h⟩ := bind_ok.mp h
  obtain ⟨_, rfl⟩ := pure_ok.mp h
  obtain ⟨places, first⟩ := appendRows_step rows
  obtain ⟨more, second⟩ := storeState_step stored
  exact .of_factStep (first.trans second)

/-- A batch leaves the state it was given, and every other task as it was. -/
theorem Committed.states {new : List MessageRow} {s : State} (h : Legible py db)
    (c : Committed py cfg db left id new s) {other : Int} (here : (left.task? other).isSome) :
    State.ofJson (stateValue py left other) = .ok (stateOf py left other) ∧
      (stateOf py left other = stateOf py db other ∨
        other = id ∧ ∃ e, s.lastEvidence = some e ∧ stateOf py left other = s.reread py cfg e) := by
  have still : stateValue py left other = stateValue py db other →
      State.ofJson (stateValue py left other) = .ok (stateOf py left other) ∧
        stateOf py left other = stateOf py db other := by
    intro same
    have equal_ : stateOf py left other = stateOf py db other := by
      unfold stateOf
      rw [same]
    rw [equal_, same]
    exact ⟨h.reads other (c.here.mp here), rfl⟩
  by_cases mine : other = id
  · subst mine
    cases last : s.lastEvidence with
    | none =>
      have quiet : stateValue py left other = stateValue py db other := by
        unfold stateValue Db.lastFact
        rw [c.unrecorded last]
      exact ⟨(still quiet).1, .inl (still quiet).2⟩
    | some e =>
      rw [stateOf_eq (c.state last)]
      exact ⟨c.state last, .inr ⟨rfl, e, rfl, rfl⟩⟩
  · have quiet : stateValue py left other = stateValue py db other := by
      unfold stateValue
      rw [(c.apart mine).state here]
    exact ⟨(still quiet).1, .inl (still quiet).2⟩

/-! ## The world -/

/-- A call of autosave that is under way, or has ended. -/
inductive Process where
  | turn (cfg : Config) (clk : Nat → Clock) (t : Turn) (at_ : Turning)
  | pass (cfg : Config) (clk : Nat → Clock) (t : Transcript) (at_ : Passing)

namespace Process

/-- A step of a process, with the file it reads as it is now. -/
def next (py : Python) (now : WireFile) (db : Db) : Process → Process × Db
  | .turn cfg clk t at_ =>
      let after := at_.next py cfg clk t db
      (.turn cfg clk t after.1, after.2)
  | .pass cfg clk t at_ =>
      let after := at_.next py cfg clk t now db
      (.pass cfg clk t after.1, after.2)

/-- A process before its first step. -/
def Fresh : Process → Prop
  | .turn _ _ _ at_ => at_ = .looking
  | .pass _ _ _ at_ => at_ = .looking

/-- The file a pass reads is the one that is followed. -/
def Over (key : Text) : Process → Prop
  | .turn _ _ _ _ => False
  | .pass _ _ t _ => cursorKey t.path = key

/-- The turn that a step stores, with its task. -/
def stores : Process → Process → List (Int × Turn)
  | .turn _ _ t (.storing _ _ _), .turn _ _ _ (.returned r) => t.ledger (.ok r)
  | _, _ => []

end Process

/-- One store, one file with its complete lines and its size, the processes, and the turns that were
    stored. -/
structure World where
  db : Db
  complete : List Line
  torn : List Line
  size : Int
  processes : List Process
  saved : List (Int × Turn)

namespace World

/-- The file as it is now. -/
structure Shows (w : World) (now : WireFile) : Prop where
  lines : now.lines = w.complete ++ w.torn
  size : now.size = w.size

/-- A process takes a step. -/
def step (py : Python) (w : World) (now : WireFile) (before after : List Process) (p : Process) :
    World :=
  { w with
    db := (p.next py now w.db).2
    processes := before ++ (p.next py now w.db).1 :: after
    saved := w.saved ++ p.stores (p.next py now w.db).1 }

end World

/-- What any interleaving of the processes leads to, among calls of the two writers that record no
    `autosave_state` fact: processes start at any time and may stop for good after any step, and the
    file may grow between any two steps. -/
inductive Interleaved (py : Python) (key : Text) : World → Prop
  | start {complete torn : List Line} (size : Int) (formed : ∀ l ∈ complete, l.Formed py)
      (rest : Torn torn) : Interleaved py key ⟨.empty, complete, torn, size, [], []⟩
  | grow {w : World} (run : Interleaved py key w) {more rest : List Line} {larger : Int}
      (formed : ∀ l ∈ more, l.Formed py) (torn : Torn rest) (le : w.size ≤ larger)
      (longer : more ≠ [] → w.size < larger) :
      Interleaved py key { w with complete := w.complete ++ more, torn := rest, size := larger }
  | call {w : World} (run : Interleaved py key w) (c : Call)
      (other : ∀ g ∈ Call.gives py.toHost c w.db, g.stored.2 ≠ stateKey) :
      Interleaved py key { w with db := (callStep c).next py.toHost w.db }
  | launch {w : World} (run : Interleaved py key w) {p : Process} (fresh : p.Fresh) :
      Interleaved py key { w with processes := w.processes ++ [p] }
  | crash {w : World} (run : Interleaved py key w) {before after : List Process} {p : Process}
      (there : w.processes = before ++ p :: after) :
      Interleaved py key { w with processes := before ++ after }
  | step {w : World} (run : Interleaved py key w) {before after : List Process} {p : Process}
      (there : w.processes = before ++ p :: after) (now : WireFile) (own : p.Over key → w.Shows now) :
      Interleaved py key (w.step py now before after p)

/-- The process at that place takes a step. -/
def World.stepAt (py : Python) (now : WireFile) (w : World) (i : Nat) : World :=
  match w.processes[i]? with
  | some p => w.step py now (w.processes.take i) (w.processes.drop (i + 1)) p
  | none => w

/-- Processes take steps in the order of a schedule, while the file stays. -/
def World.schedule (py : Python) (now : WireFile) (w : World) (order : List Nat) : World :=
  order.foldl (World.stepAt py now) w

theorem World.stepAt_file (now : WireFile) (w : World) (i : Nat) :
    (w.stepAt py now i).complete = w.complete ∧ (w.stepAt py now i).torn = w.torn ∧
      (w.stepAt py now i).size = w.size := by
  unfold World.stepAt
  cases w.processes[i]? with
  | none => exact ⟨rfl, rfl, rfl⟩
  | some p => exact ⟨rfl, rfl, rfl⟩

/-- A schedule is one of the interleavings. -/
theorem Interleaved.schedule {now : WireFile} {w : World} {order : List Nat}
    (run : Interleaved py key w) (shows : w.Shows now) :
    Interleaved py key (w.schedule py now order) := by
  induction order generalizing w with
  | nil => exact run
  | cons i rest ih =>
    have same : (w.stepAt py now i).complete = w.complete ∧ (w.stepAt py now i).torn = w.torn ∧
        (w.stepAt py now i).size = w.size := w.stepAt_file now i
    obtain ⟨complete, torn, size⟩ := same
    have shown : (w.stepAt py now i).Shows now :=
      ⟨by rw [complete, torn]; exact shows.lines, by rw [size]; exact shows.size⟩
    refine ih ?_ shown
    unfold World.stepAt
    cases found : w.processes[i]? with
    | none => exact run
    | some p =>
      refine .step run ?_ now fun _ => shows
      obtain ⟨here, rfl⟩ := List.getElem?_eq_some_iff.mp found
      rw [List.getElem_cons_drop, List.take_append_drop]

/-- A call as it was launched. -/
def Process.launched : Process → Process
  | .turn cfg clk t _ => .turn cfg clk t .looking
  | .pass cfg clk t _ => .pass cfg clk t .looking

theorem Process.launched_next (now : WireFile) (db : Db) (p : Process) :
    (p.next py now db).1.launched = p.launched := by
  cases p <;> rfl

/-- A schedule leaves every call at its place. -/
theorem World.schedule_launched (py : Python) (now : WireFile) (order : List Nat) {w : World}
    {i : Nat} {p : Process} (there : w.processes[i]? = some p) :
    ∃ q, (w.schedule py now order).processes[i]? = some q ∧ q.launched = p.launched := by
  induction order generalizing w p with
  | nil => exact ⟨p, there, rfl⟩
  | cons j rest ih =>
    obtain ⟨q, here, same⟩ : ∃ q, (w.stepAt py now j).processes[i]? = some q ∧
        q.launched = p.launched := by
      unfold World.stepAt
      cases found : w.processes[j]? with
      | none => exact ⟨p, there, rfl⟩
      | some mover =>
        obtain ⟨bound, _⟩ := List.getElem?_eq_some_iff.mp found
        have placed : (w.step py now (w.processes.take j) (w.processes.drop (j + 1)) mover).processes =
            w.processes.set j (mover.next py now w.db).1 := by
          rw [List.set_eq_take_append_cons_drop, if_pos bound]
          rfl
        dsimp only
        rw [placed]
        by_cases mine : j = i
        · subst mine
          obtain rfl := Option.some.inj (there.symm.trans found)
          exact ⟨_, List.getElem?_set_self bound, p.launched_next now w.db⟩
        · rw [List.getElem?_set_ne mine]
          exact ⟨p, there, rfl⟩
    obtain ⟨last, found, equal_⟩ := ih here
    exact ⟨last, found, equal_.trans same⟩

/-! ## What stays true of a task -/

variable {w w' : World}

/-- A later world: the store went on and the file only grew. -/
structure Later (py : Python) (w w' : World) : Prop where
  onward : Onward w.db w'.db
  saved : w.saved ⊆ w'.saved
  formed : ∀ l ∈ w.complete, l.Formed py
  grown : ∃ more, w'.complete = w.complete ++ more ∧ w.size ≤ w'.size ∧
    (more ≠ [] → w.size < w'.size)

/-- The store goes on, and the file stays. -/
theorem Later.of_onward {more : List (Int × Turn)} {processes : List Process}
    (formed : ∀ l ∈ w.complete, l.Formed py) (h : Onward w.db left) :
    Later py w { w with db := left, processes := processes, saved := w.saved ++ more } :=
  ⟨h, List.subset_append_left _ _, formed, [], (List.append_nil _).symm, le_refl _,
    fun some_ => absurd rfl some_⟩

/-- The task was given, and this holds as long as it is there. -/
structure While (w : World) (id : Int) (holds : Prop) : Prop where
  given : id ≤ w.db.sequence.tasks
  now : (w.db.task? id).isSome → holds

namespace While

variable {P Q : Prop}

theorem of_here (h : Legible py w.db) (here : (w.db.task? id).isSome) (holds : P) : While w id P := by
  refine ⟨?_, fun _ => holds⟩
  obtain ⟨row, found⟩ := Option.isSome_iff_exists.mp here
  have given := (Regular.of_reachable h.kept.reachable).tasks.given row (List.mem_of_find?_eq_some found)
  rwa [task?_id found] at given

theorem mono (h : While w id P) (keep : (w.db.task? id).isSome → P → Q) : While w id Q :=
  ⟨h.given, fun here => keep here (h.now here)⟩

theorem later (h : While w id P) (l : Later py w w')
    (keep : (∀ m ∈ w.db.messages, m.taskId = id → m ∈ w'.db.messages) → P → Q) : While w' id Q :=
  ⟨le_trans h.given l.onward.sequence, fun here =>
    keep (l.onward.rows id here) (h.now (l.onward.tasks id h.given here))⟩

end While

/-- What a call relies on in a state of a task: what it lists was saved, and what its cursors of the
    file tell. -/
structure Stands (py : Python) (key : Text) (w : World) (id : Int) (s : State) : Prop where
  recorded : Recorded w.saved py w.db id s
  reached : Reached py key w.complete w.size w.db id s

/-- A cursor tells in a later world what it told, also of a file that has grown. -/
theorem Cursor.Tells.later {c : Cursor} (h : c.Tells py w.complete w.size w.db id) (l : Later py w w')
    (rows : ∀ m ∈ w.db.messages, m.taskId = id → m ∈ w'.db.messages) :
    c.Tells py w'.complete w'.size w'.db id := by
  obtain ⟨more, grown, le, longer⟩ := l.grown
  rw [grown]
  exact (h.grow l.formed le longer).rows rows

theorem Stands.empty : Stands py key w id .empty :=
  ⟨.empty, fun _ member => absurd member List.not_mem_nil⟩

theorem Stands.later {s : State} (h : Stands py key w id s) (l : Later py w w')
    (rows : ∀ m ∈ w.db.messages, m.taskId = id → m ∈ w'.db.messages) : Stands py key w' id s := by
  have kept : Change py (fun _ _ => False) (fun _ => False) w.db w'.db id s s := .keep rows
  exact ⟨h.recorded.change kept l.saved fun _ => False.elim,
    fun c member => (h.reached c member).later l rows⟩

/-! ## What holds of a process -/

/-- A call works on a task, or may not write. -/
def Tasked (w : World) (cfg : Config) (taskId : Option Int) (holds : Int → Prop) : Prop :=
  match taskId with
  | none => cfg.write = false
  | some id => While w id (holds id)

theorem Tasked.later {taskId : Option Int} {P Q : Int → Prop} (h : Tasked w cfg taskId P)
    (l : Later py w w')
    (keep : ∀ id, (∀ m ∈ w.db.messages, m.taskId = id → m ∈ w'.db.messages) → P id → Q id) :
    Tasked w' cfg taskId Q := by
  cases taskId with
  | none => exact h
  | some id => exact While.later h l (keep id)

/-- What an answer of `save_turn` says of the store. -/
def Turn.Answered (py : Python) (w : World) (t : Turn) : SaveTurn → Prop
  | .empty _ => prepareText py t.prompt maxMessageChars = none
  | .wouldSave _ _ _ _ => True
  | .duplicate taskId key => key = t.key ∧ ∃ id, taskId = some id ∧ While w id
      ((∃ u, (id, u) ∈ w.saved ∧ u.key = t.key) ∨
        ∃ p, prepareText py t.prompt maxMessageChars = some p ∧
          ∃ m ∈ w.db.messages, m.taskId = id ∧ contentHash py m.content = p.digest)
  | .saved id _ _ _ => (id, t) ∈ w.saved ∧ ∃ p, prepareText py t.prompt maxMessageChars = some p ∧
      While w id (∃ m ∈ w.db.messages, m.taskId = id ∧ m.role = .user ∧ m.content = p.content)

def Turning.Sound (py : Python) (key : Text) (w : World) (cfg : Config) (t : Turn) : Turning → Prop
  | .looking | .raised _ => True
  | .naming => cfg.write = true
  | .loading taskId => Tasked w cfg taskId fun _ => True
  | .storing id s p => prepareText py t.prompt maxMessageChars = some p ∧ t.seenIn s p = false ∧
      While w id (Stands py key w id s)
  | .returned r => t.Answered py w r

/-- A scan begins at the start of the file or after the line of a cursor. -/
def State.Begins (s : State) (path : Path) (start : Int) : Prop :=
  start = 0 ∨ ∃ cursor : Cursor, (cursorKey path, cursor.json) ∈ s.cursors ∧ start = cursor.line

/-- The line a pass reports, as a cursor of a pass that may have stopped. -/
def IngestReport.cursor (r : IngestReport) (f : WireFile) : Cursor :=
  ⟨r.scannedTo, f.mtime, f.size, f.head, false⟩

/-- What was read of the file is still in it. -/
structure WireFile.Read (py : Python) (w : World) (f : WireFile) : Prop where
  size : f.size ≤ w.size
  events : ∀ x ∈ fragments py f.lines, x ∈ fragments py w.complete

/-- What a pass over the file is about to store: with its rows its cursor tells what holds. -/
structure Scan.Awaits (py : Python) (w : World) (t : Transcript) (id : Int) (f : WireFile)
    (done : Scan) : Prop where
  read : f.Read py w
  calm : (∀ n, t.late n = false) → done.rows.length < passCap → done.stoppedEarly = false
  tells : While w id (∀ left : Db, (∀ m ∈ w.db.messages, m.taskId = id → m ∈ left.messages) →
    (∀ r ∈ done.rows, ∃ m ∈ left.messages, m.taskId = id ∧ m.content = r.prepared.content) →
      (done.cursor f).Tells py w.complete w.size left id ∧
        (done.stoppedEarly = false → ∀ x ∈ fragments py f.lines, x.line ≤ done.scannedTo))

/-- What the report of a pass over the file says of the store. -/
structure IngestReport.Holds (py : Python) (w : World) (t : Transcript) (f : WireFile)
    (r : IngestReport) : Prop where
  read : f.Read py w
  tells : ∃ id, r.taskId = some id ∧ While w id ((r.cursor f).Tells py w.complete w.size w.db id ∧
    ((∀ n, t.late n = false) → r.added < passCap → ∀ x ∈ fragments py f.lines, x.line ≤ r.scannedTo))

def Passing.Sound (py : Python) (key : Text) (w : World) (cfg : Config) (t : Transcript) :
    Passing → Prop
  | .looking | .raised _ => True
  | .naming => cfg.write = true
  | .loading taskId => Tasked w cfg taskId fun _ => True
  | .marking taskId s entry => Tasked w cfg taskId fun id => Stands py key w id s ∧
      Entry.ofJson ((Json.obj s.cursors).get? (cursorKey t.path)) = .ok entry
  | .filtering taskId s f start _ =>
      (Tasked w cfg taskId fun id => Stands py key w id s ∧ s.Begins t.path start) ∧
        (cursorKey t.path = key → f.size ≤ w.size)
  | .reading taskId s f start _ stored =>
      (Tasked w cfg taskId fun id => Stands py key w id s ∧ s.Begins t.path start ∧
        ∀ d ∈ stored, ∃ m ∈ w.db.messages, m.taskId = id ∧ contentHash py m.content = d) ∧
        (cursorKey t.path = key → f.size ≤ w.size)
  | .storing id s f _ _ done =>
      (∀ r ∈ done.rows, r.prepared.digest = contentHash py r.prepared.content) ∧
        While w id (Stands py key w id s) ∧ (cursorKey t.path = key → done.Awaits py w t id f)
  | .returned r f => cursorKey t.path = key → cfg.write = true → r.Holds py w t f

def Process.Sound (py : Python) (key : Text) (w : World) : Process → Prop
  | .turn cfg _ t at_ => at_.Sound py key w cfg t
  | .pass cfg _ t at_ => at_.Sound py key w cfg t

/-! ## Others do not disturb it -/

theorem WireFile.Read.later {f : WireFile} (h : f.Read py w) (l : Later py w w') : f.Read py w' := by
  obtain ⟨more, grown, le, _⟩ := l.grown
  refine ⟨le_trans h.size le, fun x member => ?_⟩
  obtain ⟨new, split, _⟩ : ∃ new, fragments py (w.complete ++ more) = fragments py w.complete ++ new ∧
      ∀ f ∈ new, w.complete.length < f.line := fragments_append l.formed
  rw [grown, split]
  exact List.mem_append_left _ (h.events x member)

theorem Scan.Awaits.later {t : Transcript} {f : WireFile} {done : Scan} (h : done.Awaits py w t id f)
    (l : Later py w w') : done.Awaits py w' t id f := by
  obtain ⟨more, grown, le, longer⟩ := l.grown
  refine ⟨h.read.later l, h.calm, h.tells.later l fun rows pending left kept stored => ?_⟩
  obtain ⟨tells, whole⟩ := pending left (fun m member own => kept m (rows m member own) own) stored
  rw [grown]
  exact ⟨tells.grow l.formed le longer, whole⟩

theorem IngestReport.Holds.later {t : Transcript} {f : WireFile} {r : IngestReport}
    (h : r.Holds py w t f) (l : Later py w w') : r.Holds py w' t f := by
  obtain ⟨id, task, tells⟩ := h.tells
  exact ⟨h.read.later l, id, task, tells.later l fun rows told => ⟨told.1.later l rows, told.2⟩⟩

theorem Turn.Answered.later {t : Turn} {r : SaveTurn} (h : t.Answered py w r) (l : Later py w w') :
    t.Answered py w' r := by
  cases r with
  | empty | wouldSave => exact h
  | duplicate taskId key =>
    obtain ⟨same, id, task, seen⟩ := h
    refine ⟨same, id, task, seen.later l fun rows known => ?_⟩
    rcases known with ⟨u, listed_, equal_⟩ | ⟨p, prepared, m, stored, own, digest⟩
    · exact .inl ⟨u, l.saved listed_, equal_⟩
    · exact .inr ⟨p, prepared, m, rows m stored own, own, digest⟩
  | saved id citation chars truncated =>
    obtain ⟨listed_, p, prepared, there⟩ := h
    refine ⟨l.saved listed_, p, prepared, there.later l fun rows stored => ?_⟩
    obtain ⟨m, member, own, rest⟩ := stored
    exact ⟨m, rows m member own, own, rest⟩

theorem Turning.Sound.later {t : Turn} {at_ : Turning} (h : at_.Sound py key w cfg t)
    (l : Later py w w') : at_.Sound py key w' cfg t := by
  cases at_ with
  | looking | naming | raised => exact h
  | loading taskId => exact Tasked.later h l fun _ _ _ => trivial
  | storing id s p => exact ⟨h.1, h.2.1, h.2.2.later l fun rows stands => stands.later l rows⟩
  | returned r => exact Turn.Answered.later h l

theorem Passing.Sound.later {t : Transcript} {at_ : Passing} (h : at_.Sound py key w cfg t)
    (l : Later py w w') : at_.Sound py key w' cfg t := by
  have larger : w.size ≤ w'.size := by
    obtain ⟨_, _, le, _⟩ := l.grown
    exact le
  cases at_ with
  | looking | naming | raised => exact h
  | loading taskId => exact Tasked.later h l fun _ _ _ => trivial
  | marking taskId s entry =>
    exact Tasked.later h l fun _ rows known => ⟨known.1.later l rows, known.2⟩
  | filtering taskId s f start reset =>
    exact ⟨h.1.later l fun _ rows known => ⟨known.1.later l rows, known.2⟩,
      fun own => le_trans (h.2 own) larger⟩
  | reading taskId s f start reset stored =>
    refine ⟨h.1.later l fun id rows known => ⟨known.1.later l rows, known.2.1, fun d member => ?_⟩,
      fun own => le_trans (h.2 own) larger⟩
    obtain ⟨m, listed_, own, digest⟩ := known.2.2 d member
    exact ⟨m, rows m listed_ own, own, digest⟩
  | storing id s f start reset done =>
    exact ⟨h.1, h.2.1.later l fun rows stands => stands.later l rows, fun own => (h.2.2 own).later l⟩
  | returned r f => exact fun own write => (h own write).later l

theorem Process.Sound.later {p : Process} (h : p.Sound py key w) (l : Later py w w') :
    p.Sound py key w' := by
  cases p with
  | turn cfg clk t at_ => exact Turning.Sound.later h l
  | pass cfg clk t at_ => exact Passing.Sound.later h l

end Autosave

end Cmpath
