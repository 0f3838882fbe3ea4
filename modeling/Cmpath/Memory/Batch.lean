import Cmpath.Engine.Operation
import Cmpath.Lib.Savepoint

/-!
# Nested batches

`TaskMemory.batch` (`src/cmpath/memory.py:239-264`) is one context manager for the outermost group
of writes, which is a transaction, and for the groups inside it, which are savepoints numbered by
the depth they are opened at. Every write method opens one of its own. Code that uses it is a tree
of blocks, writes, checks that may raise, and handlers; a run of it leaves a log of the writes that
were executed and of how their blocks were left.
-/

namespace Cmpath.TaskMemory
open Lib

/-- The object: its connection and `_depth`. -/
structure Handle where
  db : Session Db
  depth : Nat

/-- What the statements of a write method raise, and the database they leave, also when they
    raise. -/
abbrev Statements : Type := Db → Option Failure × Db

/-- Which of the transaction statements of a block SQLite refuses: none, the one that opens it, or
    the one that closes it. A refused statement changes nothing. -/
inductive Fate where
  | granted
  | unopened (e : Failure)
  | unclosed (e : Failure)

/-- Python code around the batches of one object. -/
inductive Code where
  /-- Reads the database, and raises or goes on. -/
  | check (test : Db → Option Failure)
  /-- Calls a write method. -/
  | write (fate : Fate) (statements : Statements)
  /-- `with memory.batch():` -/
  | batch (fate : Fate) (body : Code)
  | seq (first second : Code)
  /-- `try: body` / `except: handler`. -/
  | handle (body handler : Code)

/-- What a run did: the writes executed, each inside the blocks it ran in; of a block it says
    whether it was left by an exception. -/
inductive Log where
  | none
  | write (statements : Statements)
  | block (raised : Bool) (inside : Log)
  | both (first second : Log)

/-- The writes in order, each with what its blocks say, the outermost first. -/
def Log.writes : Log → List (Statements × List Bool)
  | .none => []
  | .write statements => [(statements, [])]
  | .block raised inside => inside.writes.map fun w => (w.1, raised :: w.2)
  | .both first second => first.writes ++ second.writes

/-- The writes none of whose blocks was left by an exception. -/
def Log.surviving (log : Log) : List Statements :=
  (log.writes.filter fun w => w.2.all fun raised => !raised).map Prod.fst

/-- Run writes one after another, where none of them raises. -/
def replay : List Statements → Db → Option Db
  | [], db => some db
  | w :: rest, db =>
      match w db with
      | (some _, _) => none
      | (none, db) => replay rest db

/-- How a piece of code ends. -/
structure Result where
  raised : Option Failure
  handle : Handle
  log : Log

/-- A transaction statement SQLite refuses for its place. -/
def misplaced : SavepointError → Failure
  | .nested => .constraint "cannot start a transaction within a transaction"
  | .noTransaction => .constraint "cannot commit - no transaction is active"
  | .noSuchSavepoint => .constraint "no such savepoint"

/-- `f"cmp_savepoint_{depth}"`. -/
def savepointName (depth : Nat) : Text := Text.lit "cmp_savepoint_" ++ Text.ofNat depth

/-- `BEGIN IMMEDIATE`, or `SAVEPOINT` inside a batch. -/
def opening (depth : Nat) (db : Session Db) : Except SavepointError (Session Db) :=
  if depth = 0 then db.begin_ else .ok (db.savepoint (savepointName depth))

/-- `ROLLBACK`, or `ROLLBACK TO` and `RELEASE`. -/
def undoing (depth : Nat) (db : Session Db) : Except SavepointError (Session Db) :=
  if depth = 0 then db.rollback
  else do
    let db ← db.rollbackTo (savepointName depth)
    db.release (savepointName depth)

/-- `COMMIT`, or `RELEASE`. -/
def closing (depth : Nat) (db : Session Db) : Except SavepointError (Session Db) :=
  if depth = 0 then db.commit else db.release (savepointName depth)

/-- What raises the error of a block after its rollback. -/
def abandon (depth : Nat) (e : Failure) (h : Handle) : Option Failure × Handle :=
  match undoing depth h.db with
  | .ok db => (some e, { h with db := db })
  | .error refused => (some (misplaced refused), h)

/-- The end of a block whose body did not raise (`memory.py:254-262`). -/
def concluding (fate : Fate) (depth : Nat) (h : Handle) : Option Failure × Handle :=
  match fate with
  | .unclosed e => if h.db.inTransaction then abandon depth e h else (some e, h)
  | _ =>
      match closing depth h.db with
      | .ok db => (none, { h with db := db })
      | .error refused =>
          if h.db.inTransaction then abandon depth (misplaced refused) h
          else (some (misplaced refused), h)

/-- `batch` (`memory.py:239-264`) around the body of a `with` statement. -/
def batch (fate : Fate) (body : Handle → Result) (h : Handle) : Result :=
  let depth := h.depth
  match fate with
  | .unopened e => ⟨some e, h, .block true .none⟩
  | _ =>
      match opening depth h.db with
      | .error refused => ⟨some (misplaced refused), h, .block true .none⟩
      | .ok db =>
          let inner := body { db := db, depth := h.depth + 1 }
          let left :=
            match inner.raised with
            | some e => abandon depth e inner.handle
            | none => concluding fate depth inner.handle
          ⟨left.1, { left.2 with depth := left.2.depth - 1 }, .block left.1.isSome inner.log⟩

/-- Run code on the object. -/
def Code.run : Code → Handle → Result
  | .check test, h => ⟨test h.db.now, h, .none⟩
  | .write fate statements, h =>
      TaskMemory.batch fate
        (fun h =>
          let done := statements h.db.now
          ⟨done.1, { h with db := h.db.put done.2 }, .write statements⟩) h
  | .batch fate body, h => TaskMemory.batch fate body.run h
  | .seq first second, h =>
      let one := first.run h
      match one.raised with
      | some e => ⟨some e, one.handle, one.log⟩
      | none =>
          let two := second.run one.handle
          ⟨two.raised, two.handle, .both one.log two.log⟩
  | .handle body handler, h =>
      let one := body.run h
      match one.raised with
      | none => one
      | some _ =>
          let two := handler.run one.handle
          ⟨two.raised, two.handle, .both one.log two.log⟩

/-! ## What survives -/

namespace Log

variable (inside first second : Log)

@[simp] theorem surviving_none : Log.none.surviving = [] := rfl

@[simp] theorem surviving_write (w : Statements) : (Log.write w).surviving = [w] := rfl

@[simp] theorem surviving_both :
    (Log.both first second).surviving = first.surviving ++ second.surviving := by
  simp [surviving, writes]

/-- Nothing survives a block that was left by an exception. -/
@[simp] theorem surviving_raised : (Log.block true inside).surviving = [] := by
  simp [surviving, writes, List.filter_map, Function.comp_def]

@[simp] theorem surviving_kept : (Log.block false inside).surviving = inside.surviving := by
  simp [surviving, writes, List.filter_map, Function.comp_def]

end Log

theorem replay_append (first second : List Statements) (db : Db) :
    replay (first ++ second) db = (replay first db).bind (replay second) := by
  induction first generalizing db with
  | nil => rfl
  | cons w first ih =>
      rw [List.cons_append, replay, replay]
      rcases w db with ⟨raised, db'⟩
      cases raised with
      | some e => rfl
      | none => exact ih db'

/-! ## The open blocks -/

/-- Where the object is between two statements: outside every block, or inside as many as it holds
    savepoints, and one. -/
inductive Frame where
  | outside
  | inside (file : Db) (saves : List (Text × Db))

/-- The object in a frame, on a database as it sees it. -/
def Frame.handle (now : Db) : Frame → Handle
  | .outside => ⟨.idle now, 0⟩
  | .inside file saves => ⟨.within file now true saves, saves.length + 1⟩

/-- The frame of the body of a block opened on a database. -/
def Frame.opened (now : Db) : Frame → Frame
  | .outside => .inside now []
  | .inside file saves => .inside file ((savepointName (saves.length + 1), now) :: saves)

section Frame

variable (frame : Frame) (db db' : Db)

@[simp] theorem Frame.now_handle : (frame.handle db).db.now = db := by cases frame <;> rfl

@[simp] theorem Frame.depth_opened :
    ((frame.opened db).handle db').depth = (frame.handle db).depth + 1 := by
  cases frame <;> rfl

theorem Frame.put_handle :
    ({ frame.handle db with db := (frame.handle db).db.put db' } : Handle) = frame.handle db' := by
  cases frame <;> rfl

@[simp] theorem inTransaction_opened : ((frame.opened db).handle db').db.inTransaction = true := by
  cases frame <;> rfl

/-- To open a block opens its frame. -/
theorem opening_handle :
    opening (frame.handle db).depth (frame.handle db).db =
      .ok ((frame.opened db).handle db).db := by
  cases frame with
  | outside => rfl
  | inside file saves => simp [opening, Frame.handle, Frame.opened, Session.savepoint]

/-- To undo a block leaves its frame on the database it was opened on. -/
theorem undoing_handle :
    undoing (frame.handle db).depth ((frame.opened db).handle db').db =
      .ok (frame.handle db).db := by
  cases frame with
  | outside => rfl
  | inside file saves =>
      simp only [undoing, Frame.handle, Frame.opened, Nat.add_eq_zero_iff, Nat.one_ne_zero,
        and_false, if_false, Session.rollbackTo_top]
      exact Session.release_top

/-- To close a block leaves its frame on the database it ends on. -/
theorem closing_handle :
    closing (frame.handle db).depth ((frame.opened db).handle db').db =
      .ok (frame.handle db').db := by
  cases frame with
  | outside => rfl
  | inside file saves => simp [closing, Frame.handle, Frame.opened]

end Frame

/-- A run from a frame on a database ends in the frame, on the database the surviving writes
    make. -/
def Composes (frame : Frame) (db : Db) (out : Result) : Prop :=
  ∃ db', out.handle = frame.handle db' ∧ replay out.log.surviving db = some db'

/-- The handle of a block that is left: the frame around it. -/
theorem leave_handle (frame : Frame) (db db' end_ : Db) :
    ({ db := (frame.handle end_).db, depth := ((frame.opened db).handle db').depth - 1 } : Handle) =
      frame.handle end_ := by
  cases frame <;> rfl

theorem abandon_handle (frame : Frame) (db db' : Db) (e : Failure) :
    abandon (frame.handle db).depth e ((frame.opened db).handle db') =
      (some e, { (frame.opened db).handle db' with db := (frame.handle db).db }) := by
  rw [abandon, undoing_handle]

section Block

variable {frame : Frame} {db db' : Db} (fate : Fate) {body : Handle → Result}

/-- What a block does with its body, once it is open. -/
theorem batch_opened (opened : ∀ e, fate ≠ .unopened e) :
    batch fate body (frame.handle db) =
      (let inner := body ((frame.opened db).handle db)
       let left :=
        match inner.raised with
        | some e => abandon (frame.handle db).depth e inner.handle
        | none => concluding fate (frame.handle db).depth inner.handle
       ⟨left.1, { left.2 with depth := left.2.depth - 1 }, .block left.1.isSome inner.log⟩) := by
  have entered : ({ db := ((frame.opened db).handle db).db, depth := (frame.handle db).depth + 1 } :
      Handle) = (frame.opened db).handle db := by
    rw [← frame.depth_opened db db]
  unfold batch
  dsimp only
  cases fate with
  | unopened e => exact absurd rfl (opened e)
  | granted | unclosed refused =>
      rw [opening_handle]
      dsimp only
      rw [entered]

variable (held : (body ((frame.opened db).handle db)).handle = (frame.opened db).handle db')
include held

/-- A block whose body raises is undone. -/
theorem batch_raised (opened : ∀ e, fate ≠ .unopened e) {e : Failure}
    (raised : (body ((frame.opened db).handle db)).raised = some e) :
    batch fate body (frame.handle db) =
      ⟨some e, frame.handle db, .block true (body ((frame.opened db).handle db)).log⟩ := by
  rw [batch_opened fate opened]
  dsimp only
  rw [held, raised]
  dsimp only
  rw [abandon_handle]
  exact congrArg (Result.mk _ · _) (leave_handle frame db db' db)

/-- A block whose body ends keeps what the body did. -/
theorem batch_granted (ended : (body ((frame.opened db).handle db)).raised = none) :
    batch .granted body (frame.handle db) =
      ⟨none, frame.handle db', .block false (body ((frame.opened db).handle db)).log⟩ := by
  rw [batch_opened _ fun _ => by simp]
  dsimp only
  rw [held, ended]
  simp only [concluding, closing_handle]
  exact congrArg (Result.mk _ · _) (leave_handle frame db db' db')

/-- A block whose last statement is refused is undone. -/
theorem batch_unclosed {refused : Failure}
    (ended : (body ((frame.opened db).handle db)).raised = none) :
    batch (.unclosed refused) body (frame.handle db) =
      ⟨some refused, frame.handle db, .block true (body ((frame.opened db).handle db)).log⟩ := by
  rw [batch_opened _ fun _ => by simp]
  dsimp only
  rw [held, ended]
  simp only [concluding, inTransaction_opened, if_true, abandon_handle]
  exact congrArg (Result.mk _ · _) (leave_handle frame db db' db)

/-- A block is undone and raises, or keeps what its body did and does not. -/
theorem batch_cases :
    (∃ e log, batch fate body (frame.handle db) = ⟨some e, frame.handle db, .block true log⟩) ∨
      ((body ((frame.opened db).handle db)).raised = none ∧
        batch fate body (frame.handle db) =
          ⟨none, frame.handle db', .block false (body ((frame.opened db).handle db)).log⟩) := by
  cases fate with
  | unopened e => exact .inl ⟨e, .none, rfl⟩
  | granted =>
      cases ended : (body ((frame.opened db).handle db)).raised with
      | some e => exact .inl ⟨e, _, batch_raised _ held (fun _ => by simp) ended⟩
      | none => exact .inr ⟨rfl, batch_granted held ended⟩
  | unclosed refused =>
      cases ended : (body ((frame.opened db).handle db)).raised with
      | some e => exact .inl ⟨e, _, batch_raised _ held (fun _ => by simp) ended⟩
      | none => exact .inl ⟨refused, _, batch_unclosed held ended⟩

/-- A block that raises leaves the database it was opened on. -/
theorem batch_undone (raised : (batch fate body (frame.handle db)).raised.isSome = true) :
    (batch fate body (frame.handle db)).handle = frame.handle db := by
  rcases batch_cases fate held with ⟨e, log, undone⟩ | ⟨_, kept⟩
  · rw [undone]
  · rw [kept] at raised
    simp at raised

omit held

/-- A block composes if its body does when it does not raise, whichever way it is left. -/
theorem batch_composes
    (inner : ∃ db', (body ((frame.opened db).handle db)).handle = (frame.opened db).handle db' ∧
      ((body ((frame.opened db).handle db)).raised = none →
        replay (body ((frame.opened db).handle db)).log.surviving db = some db')) :
    Composes frame db (batch fate body (frame.handle db)) := by
  obtain ⟨db', held, kept⟩ := inner
  rcases batch_cases fate held with ⟨e, log, undone⟩ | ⟨ended, closed⟩
  · rw [undone]
    exact ⟨db, rfl, by rw [Log.surviving_raised]; rfl⟩
  · rw [closed]
    exact ⟨db', rfl, by rw [Log.surviving_kept]; exact kept ended⟩

end Block

/-- Code composes, wherever it runs. -/
theorem run_composes (code : Code) (frame : Frame) (db : Db) :
    Composes frame db (code.run (frame.handle db)) := by
  induction code generalizing frame db with
  | check test => exact ⟨db, rfl, rfl⟩
  | write fate statements =>
      refine batch_composes _ ?_
      refine ⟨(statements db).2, ?_, fun clean => ?_⟩
      · simp only [Frame.now_handle]
        exact Frame.put_handle _ _ _
      · simp only [Frame.now_handle] at clean
        simp only [Log.surviving_write, replay]
        rw [← Prod.eta (statements db), clean]
  | batch fate body ih =>
      obtain ⟨db', held, kept⟩ := ih (frame.opened db) db
      exact batch_composes _ ⟨db', held, fun _ => kept⟩
  | seq first second ihFirst ihSecond =>
      obtain ⟨middle, held, kept⟩ := ihFirst frame db
      rw [Code.run]
      dsimp only
      cases raised : (first.run (frame.handle db)).raised with
      | some e => exact ⟨middle, held, kept⟩
      | none =>
          obtain ⟨last, heldLast, keptLast⟩ := ihSecond frame middle
          rw [held]
          refine ⟨last, heldLast, ?_⟩
          rw [Log.surviving_both, replay_append, kept]
          exact keptLast
  | handle body handler ihBody ihHandler =>
      obtain ⟨middle, held, kept⟩ := ihBody frame db
      rw [Code.run]
      dsimp only
      cases raised : (body.run (frame.handle db)).raised with
      | none => exact ⟨middle, held, kept⟩
      | some e =>
          obtain ⟨last, heldLast, keptLast⟩ := ihHandler frame middle
          rw [held]
          refine ⟨last, heldLast, ?_⟩
          rw [Log.surviving_both, replay_append, kept]
          exact keptLast

/-! ## Code and transactions -/

/-- A piece of code, run on a database in a frame, does what a computation over the database does
    and raises what it fails with. -/
def Result.Follows (frame : Frame) (out : Result) : Except Failure (Unit × Db) → Prop
  | .ok (_, db') => out.raised = none ∧ out.handle = frame.handle db'
  | .error e => out.raised = some e ∧ ∃ db', out.handle = frame.handle db'

def Code.Performs (code : Code) (t : Tx Unit) : Prop :=
  ∀ (frame : Frame) (db : Db), Result.Follows frame (code.run (frame.handle db)) (t db)

/-- The statements of a write method, which do what a computation over the database does. -/
def Statements.Of (statements : Statements) (t : Tx Unit) : Prop :=
  ∀ db, match t db with
    | .ok (_, db') => statements db = (none, db')
    | .error e => (statements db).1 = some e

/-- A granted block around a body that follows a computation is one transaction of it: it leaves
    no trace of a failure. -/
theorem batch_follows {frame : Frame} {db : Db} {body : Handle → Result} {t : Tx Unit}
    (follows : Result.Follows (frame.opened db) (body ((frame.opened db).handle db)) (t db)) :
    (batch .granted body (frame.handle db)).handle = frame.handle (Txn.atomic t db).2 ∧
      Result.Follows frame (batch .granted body (frame.handle db)) (t db) := by
  cases run : t db with
  | error e =>
      rw [run] at follows
      obtain ⟨raised, db', held⟩ := follows
      rw [batch_raised _ held (fun _ => by simp) raised]
      exact ⟨by simp [Txn.atomic, run], rfl, db, rfl⟩
  | ok r =>
      rw [run] at follows
      obtain ⟨ended, held⟩ := follows
      rw [batch_granted held ended]
      exact ⟨by simp [Txn.atomic, run], rfl, rfl⟩

/-- A write method performs its statements. -/
theorem performs_write {statements : Statements} {t : Tx Unit} (of : statements.Of t) :
    (Code.write .granted statements).Performs t := by
  intro frame db
  refine (batch_follows ?_).2
  have put := (frame.opened db).put_handle db (statements db).2
  have here := of db
  cases run : t db with
  | error e =>
      rw [run] at here
      simp only [Result.Follows, Frame.now_handle, here, true_and]
      exact ⟨_, put⟩
  | ok r =>
      rw [run] at here
      simp only [Result.Follows, Frame.now_handle, here, true_and]
      exact (frame.opened db).put_handle db r.2

theorem performs_seq {first second : Code} {one two : Tx Unit} (performsOne : first.Performs one)
    (performsTwo : second.Performs two) :
    (Code.seq first second).Performs (one >>= fun _ => two) := by
  intro frame db
  have here := performsOne frame db
  rw [Code.run]
  dsimp only
  cases run : one db with
  | error e =>
      have failed : (one >>= fun _ => two) db = .error e := by
        simp only [Bind.bind, run]
      rw [run] at here
      rw [here.1, failed]
      exact ⟨rfl, here.2⟩
  | ok r =>
      have passed : (one >>= fun _ => two) db = two r.2 := by
        simp only [Bind.bind, run]
      rw [run] at here
      rw [here.1, here.2, passed]
      exact performsTwo frame r.2

/-- A block of writes is one transaction of them, also on the outside. -/
theorem performs_batch {body : Code} {t : Tx Unit} (performs : body.Performs t) :
    (Code.batch .granted body).Performs t := fun frame db =>
  (batch_follows (performs (frame.opened db) db)).2

/-- From outside, a block commits what its computation does as one transaction. -/
theorem run_batch_atomic {body : Code} {t : Tx Unit} (performs : body.Performs t) (db : Db) :
    ((Code.batch .granted body).run ⟨.idle db, 0⟩).handle = ⟨.idle (Txn.atomic t db).2, 0⟩ :=
  (batch_follows (performs (Frame.outside.opened db) db)).1

/-- Any tree of blocks, writes and handlers, run on an object outside every block, commits what the
    writes do none of whose blocks was left by an exception, one after another, and leaves the
    object outside every block. An outermost block that raises commits nothing. -/
theorem nested_batches_compose (code : Code) (db : Db) :
    (∃ db', replay (code.run ⟨.idle db, 0⟩).log.surviving db = some db' ∧
      (code.run ⟨.idle db, 0⟩).handle.db.file = db' ∧
      (code.run ⟨.idle db, 0⟩).handle.db.inTransaction = false ∧
      (code.run ⟨.idle db, 0⟩).handle.depth = 0) ∧
    ∀ fate body, code = .batch fate body → (code.run ⟨.idle db, 0⟩).raised.isSome = true →
      (code.run ⟨.idle db, 0⟩).handle.db.file = db := by
  constructor
  · obtain ⟨db', held, kept⟩ := run_composes code .outside db
    change (code.run ⟨.idle db, 0⟩).handle = _ at held
    exact ⟨db', kept, by rw [held]; rfl, by rw [held]; rfl, by rw [held]; rfl⟩
  · rintro fate body rfl raised
    obtain ⟨db', held, _⟩ := run_composes body (Frame.outside.opened db) db
    have undone : (TaskMemory.batch fate body.run (Frame.outside.handle db)).handle =
        Frame.outside.handle db := batch_undone fate held raised
    rw [Code.run]
    exact congrArg (fun h => h.db.file) undone

end Cmpath.TaskMemory
