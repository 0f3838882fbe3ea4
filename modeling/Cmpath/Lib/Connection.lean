import Cmpath.Lib.Catalog

/-!
# Programs on a connection

A connection to a database file: what is committed, the transaction that is open, whether foreign
keys are enforced, and how many statements it has run. Any statement may fail for a reason of its
own (`World.faults`); a statement that fails has no effect.
-/

namespace Lib.Sql

/-- What the statements do that is not theirs to decide: which of them fail, and the triggers. -/
structure World where
  faults : Nat → Option Nat
  fire : Fire

structure Connection where
  file : Catalog
  work : Option Catalog := none
  foreignKeys : Bool := false
  clock : Nat := 0

/-- The database as the connection sees it. -/
def Connection.view (c : Connection) : Catalog := c.work.getD c.file

/-- Put a database in the place of the one the connection sees. -/
def Connection.put (c : Connection) (db : Catalog) : Connection :=
  match c.work with
  | none => { c with file := db }
  | some _ => { c with work := some db }

/-- `Close`: what is not committed is gone. -/
def Connection.close (c : Connection) : Catalog := c.file

/-- What a connection is told to do. -/
inductive Command where
  | begin
  | commit
  | rollback
  | foreignKeys (on : Bool)
  | setting
  | stmt (s : Stmt)
  deriving DecidableEq

/-- A program on a connection. -/
def Program (ε α : Type) : Type := Connection → Except ε α × Connection

namespace Program

variable {ε α β : Type}

instance : Monad (Program ε) where
  pure a := fun c => (.ok a, c)
  bind p f := fun c =>
    match p c with
    | (.ok a, c') => f a c'
    | (.error e, c') => (.error e, c')

def fail (e : ε) : Program ε α := fun c => (.error e, c)

/-- Run a program for its effect (`_ = …`). -/
def ignore {δ : Type} (p : Program δ α) : Program ε Unit := fun c => (.ok (), (p c).2)

/-- Run the second program if the first one fails (`if err != nil { …; return err }`). -/
def orElse (p : Program ε α) (cleanup : Program ε Unit) : Program ε α := fun c =>
  match p c with
  | (.ok a, c') => (.ok a, c')
  | (.error e, c') => (.error e, (cleanup c').2)

/-- Report the errors of a program as others. -/
def mapError {δ : Type} (f : ε → δ) (p : Program ε α) : Program δ α := fun c =>
  match p c with
  | (.ok a, c') => (.ok a, c')
  | (.error e, c') => (.error (f e), c')

end Program

section Run

variable (world : World)

/-- What a command does when it does not fail for a reason of its own. -/
def Command.run (c : Connection) : Command → Except SqlError Connection
  | .begin =>
      match c.work with
      | some _ => .error .transaction
      | none => .ok { c with work := some c.file }
  | .commit =>
      match c.work with
      | some db => .ok { c with file := db, work := none }
      | none => .error .transaction
  | .rollback =>
      match c.work with
      | some _ => .ok { c with work := none }
      | none => .error .transaction
  | .foreignKeys on =>
      match c.work with
      | some _ => .ok c
      | none => .ok { c with foreignKeys := on }
  | .setting => .ok c
  | .stmt s => (s.run world.fire c.foreignKeys c.view).map c.put

/-- The connection after one more statement. -/
def Connection.tick (c : Connection) : Connection := { c with clock := c.clock + 1 }

/-- `DB.Exec`. -/
def exec (s : Command) : Program SqlError Unit := fun c =>
  match world.faults c.clock with
  | some code => (.error (.fault code), c.tick)
  | none =>
      match s.run world c.tick with
      | .error e => (.error e, c.tick)
      | .ok c' => (.ok (), c')

/-- `DB.Script`: statement after statement, up to the first that fails. -/
def script : List Command → Program SqlError Unit
  | [] => pure ()
  | s :: rest => do
      exec world s
      script rest

/-- `DB.Query`. -/
def query {β : Type} (q : Catalog → Except SqlError β) : Program SqlError β := fun c =>
  match world.faults c.clock with
  | some code => (.error (.fault code), c.tick)
  | none => (q c.view, c.tick)

end Run

/-! ## What a program leaves -/

/-- From a connection with `pre`, the program answers with `post` or fails with `fails`. -/
def Triple {ε α : Type} (pre : Connection → Prop) (p : Program ε α)
    (post : α → Connection → Prop) (fails : Connection → Prop) : Prop :=
  ∀ c, pre c → match p c with
    | (.ok a, c') => post a c'
    | (.error _, c') => fails c'

namespace Triple

variable {ε δ α β : Type} {pre pre' fails fails' : Connection → Prop} {p : Program ε α}
  {post post' : α → Connection → Prop}

theorem pure (a : α) : Triple (ε := ε) (post a) (Pure.pure a) post fails := fun _ h => h

theorem fail (e : ε) : Triple fails (Program.fail e) post fails := fun _ h => h

/-- The postconditions may be weakened and the precondition strengthened. -/
theorem weaken (h : Triple pre p post fails) (before : ∀ c, pre' c → pre c)
    (after : ∀ a c, post a c → post' a c) (otherwise : ∀ c, fails c → fails' c) :
    Triple pre' p post' fails' := by
  intro c start
  have spec := h c (before c start)
  split
  · rename_i a c' run
    rw [run] at spec
    exact after a c' spec
  · rename_i e c' run
    rw [run] at spec
    exact otherwise c' spec

theorem of_ok {c : Connection} {a : α} (h : Triple pre p post fails) (start : pre c)
    (run : (p c).1 = .ok a) : post a (p c).2 := by
  have spec := h c start
  split at spec
  · rename_i b c' ran
    rw [ran] at run ⊢
    cases run
    exact spec
  · rename_i e c' ran
    rw [ran] at run
    cases run

theorem of_error {c : Connection} {e : ε} (h : Triple pre p post fails) (start : pre c)
    (run : (p c).1 = .error e) : fails (p c).2 := by
  have spec := h c start
  split at spec
  · rename_i b c' ran
    rw [ran] at run
    cases run
  · rename_i e' c' ran
    rw [ran]
    exact spec

theorem bind {f : α → Program ε β} {last : β → Connection → Prop}
    (first : Triple pre p post fails) (rest : ∀ a, Triple (post a) (f a) last fails) :
    Triple pre (p >>= f) last fails := by
  intro c start
  have spec := first c start
  show match (match p c with
    | (.ok a, d) => f a d
    | (.error e, d) => (.error e, d)) with
    | (.ok b, c') => last b c'
    | (.error _, c') => fails c'
  cases run : p c with
  | mk result d =>
    rw [run] at spec
    cases result with
    | ok a => exact rest a d spec
    | error e => exact spec

theorem ite {b : Bool} {q : Program ε α} (yes : b = true → Triple pre p post fails)
    (no : b = false → Triple pre q post fails) : Triple pre (if b then p else q) post fails := by
  cases b with
  | true => exact yes rfl
  | false => exact no rfl

/-- What holds of the start whatever the connection may be split off. -/
theorem ex {ι : Type} {some_ : ι → Connection → Prop}
    (h : ∀ i, Triple (some_ i) p post fails) : Triple (fun c => ∃ i, some_ i c) p post fails :=
  fun c ⟨i, start⟩ => h i c start

theorem of_and {fact : Prop} (h : fact → Triple pre p post fails) :
    Triple (fun c => fact ∧ pre c) p post fails := fun c ⟨true_, start⟩ => h true_ c start

theorem mapError {f : ε → δ} (h : Triple pre p post fails) :
    Triple pre (p.mapError f) post fails := by
  intro c start
  have spec := h c start
  unfold Program.mapError
  cases run : p c with
  | mk result d =>
    rw [run] at spec
    cases result with
    | ok a => exact spec
    | error e => exact spec

theorem ignore {after : Connection → Prop} (h : Triple pre p (fun _ => after) after) :
    Triple (ε := δ) pre (.ignore p) (fun _ => after) fails := by
  intro c start
  have spec := h c start
  show after (p c).2
  cases run : p c with
  | mk result d =>
    rw [run] at spec
    cases result with
    | ok a => exact spec
    | error e => exact spec

theorem orElse {failed : Connection → Prop} {cleanup : Program ε Unit}
    (h : Triple pre p post failed) (clean : Triple failed cleanup (fun _ => fails) fails) :
    Triple pre (p.orElse cleanup) post fails := by
  intro c start
  have spec := h c start
  unfold Program.orElse
  cases run : p c with
  | mk result d =>
    rw [run] at spec
    cases result with
    | ok a => exact spec
    | error e =>
      have cleaned := clean d spec
      dsimp only
      cases last : cleanup d with
      | mk answer c' =>
        rw [last] at cleaned
        cases answer <;> exact cleaned

end Triple

/-- No transaction is open. -/
def Idle (file : Catalog) (foreignKeys : Bool) (c : Connection) : Prop :=
  c.file = file ∧ c.work = none ∧ c.foreignKeys = foreignKeys

/-- A transaction is open and has got this far. -/
def Working (file work : Catalog) (foreignKeys : Bool) (c : Connection) : Prop :=
  c.file = file ∧ c.work = some work ∧ c.foreignKeys = foreignKeys

/-- The file holds this, whatever is open. -/
def Left (file : Catalog) (c : Connection) : Prop := c.file = file

theorem Idle.left {file : Catalog} {on : Bool} (c : Connection) (h : Idle file on c) : Left file c :=
  h.1

theorem Working.left {file work : Catalog} {on : Bool} (c : Connection) (h : Working file work on c) :
    Left file c := h.1

section Rules

variable {world : World} {file work : Catalog} {on : Bool}

/-- A command that fails leaves the connection; one that does not does what it does. -/
theorem Triple.exec {s : Command} {pre : Connection → Prop} {post : Unit → Connection → Prop}
    (ticks : ∀ c, pre c → pre c.tick)
    (runs : ∀ c c', pre c → s.run world c = .ok c' → post () c') :
    Triple pre (exec world s) post pre := by
  intro c start
  unfold Lib.Sql.exec
  cases world.faults c.clock with
  | some code => exact ticks c start
  | none =>
    dsimp only
    cases run : s.run world c.tick with
    | error e => exact ticks c start
    | ok c' => exact runs c.tick c' (ticks c start) run

theorem Triple.query {β : Type} {q : Catalog → Except SqlError β} {pre : Connection → Prop}
    (ticks : ∀ c, pre c → pre c.tick) {view : Catalog} (sees : ∀ c, pre c → c.view = view) :
    Triple pre (query world q) (fun b c => q view = .ok b ∧ pre c) pre := by
  intro c start
  unfold Lib.Sql.query
  cases world.faults c.clock with
  | some code => exact ticks c start
  | none =>
    dsimp only
    rw [sees c start]
    cases q view with
    | error e => exact ticks c start
    | ok b => exact ⟨rfl, ticks c start⟩

theorem Triple.query_idle {β : Type} {q : Catalog → Except SqlError β} :
    Triple (Idle file on) (Lib.Sql.query world q) (fun b c => q file = .ok b ∧ Idle file on c)
      (Idle file on) := by
  refine Triple.query (fun _ h => h) ?_
  rintro c ⟨rfl, idle, _⟩
  unfold Connection.view
  rw [idle]
  rfl

theorem Triple.query_working {β : Type} {q : Catalog → Except SqlError β} :
    Triple (Working file work on) (Lib.Sql.query world q)
      (fun b c => q work = .ok b ∧ Working file work on c) (Working file work on) := by
  refine Triple.query (fun _ h => h) ?_
  rintro c ⟨_, working, _⟩
  unfold Connection.view
  rw [working]
  rfl

theorem Triple.exec_begin :
    Triple (Idle file on) (Lib.Sql.exec world .begin) (fun _ => Working file file on)
      (Idle file on) := by
  refine Triple.exec (fun _ h => h) ?_
  rintro c c' ⟨rfl, idle, rfl⟩ run
  simp only [Command.run, idle] at run
  cases run
  exact ⟨rfl, rfl, rfl⟩

theorem Triple.exec_commit :
    Triple (Working file work on) (Lib.Sql.exec world .commit) (fun _ => Idle work on)
      (Working file work on) := by
  refine Triple.exec (fun _ h => h) ?_
  rintro c c' ⟨rfl, working, rfl⟩ run
  simp only [Command.run, working] at run
  cases run
  exact ⟨rfl, rfl, rfl⟩

theorem Triple.exec_rollback :
    Triple (Left file) (Lib.Sql.exec world .rollback) (fun _ => Left file) (Left file) := by
  refine Triple.exec (fun _ h => h) ?_
  rintro c c' rfl run
  cases working : c.work with
  | none =>
    simp only [Command.run, working] at run
    cases run
  | some db =>
    simp only [Command.run, working] at run
    cases run
    rfl

theorem Triple.exec_foreignKeys {new : Bool} :
    Triple (Idle file on) (Lib.Sql.exec world (.foreignKeys new)) (fun _ => Idle file new)
      (Idle file on) := by
  refine Triple.exec (fun _ h => h) ?_
  rintro c c' ⟨rfl, idle, _⟩ run
  simp only [Command.run, idle] at run
  cases run
  exact ⟨rfl, rfl, rfl⟩

theorem Triple.exec_foreignKeys_left {new : Bool} :
    Triple (Left file) (Lib.Sql.exec world (.foreignKeys new)) (fun _ => Left file) (Left file) := by
  refine Triple.exec (fun _ h => h) ?_
  rintro c c' rfl run
  cases working : c.work with
  | none =>
    simp only [Command.run, working] at run
    cases run
    rfl
  | some db =>
    simp only [Command.run, working] at run
    cases run
    rfl

theorem Triple.exec_setting :
    Triple (Idle file on) (Lib.Sql.exec world .setting) (fun _ => Idle file on) (Idle file on) := by
  refine Triple.exec (fun _ h => h) ?_
  rintro c c' start run
  cases run
  exact start

theorem Triple.exec_stmt {s : Stmt} :
    Triple (Working file work on) (Lib.Sql.exec world (.stmt s))
      (fun _ c => ∃ db, s.run world.fire on work = .ok db ∧ Working file db on c)
      (Working file work on) := by
  refine Triple.exec (fun _ h => h) ?_
  rintro c c' ⟨rfl, working, rfl⟩ run
  simp only [Command.run, Connection.view, working, Option.getD_some] at run
  cases done : s.run world.fire c.foreignKeys work with
  | error e =>
    rw [done] at run
    cases run
  | ok db =>
    rw [done] at run
    cases run
    refine ⟨db, rfl, ?_⟩
    simp only [Connection.put, working]
    exact ⟨rfl, rfl, rfl⟩

theorem Triple.script_one {s : Command} {pre fails : Connection → Prop}
    {post : Unit → Connection → Prop} (h : Triple pre (Lib.Sql.exec world s) post fails) :
    Triple pre (script world [s]) post fails :=
  Triple.bind h fun _ => Triple.pure ()

theorem Triple.script_two {s s' : Command} {pre fails : Connection → Prop}
    {mid post : Unit → Connection → Prop} (h : Triple pre (Lib.Sql.exec world s) mid fails)
    (then_ : Triple (mid ()) (Lib.Sql.exec world s') post fails) :
    Triple pre (script world [s, s']) post fails :=
  Triple.bind h fun _ => script_one then_

/-- The statements of a script inside a transaction. -/
theorem Triple.script_stmts {ss : List Stmt} :
    Triple (Working file work on) (script world (ss.map .stmt))
      (fun _ c => ∃ db, runAll world.fire on ss work = .ok db ∧ Working file db on c)
      (Left file) := by
  induction ss generalizing work with
  | nil => exact fun c start => ⟨work, rfl, start⟩
  | cons s rest ih =>
    refine Triple.bind (exec_stmt.weaken (fun _ h => h) (fun _ _ h => h) Working.left) ?_
    intro _
    refine Triple.ex fun mid => Triple.of_and fun done => ?_
    refine ih.weaken (fun _ h => h) ?_ fun _ h => h
    rintro _ c ⟨db, run, left⟩
    refine ⟨db, ?_, left⟩
    show (s.run world.fire on work >>= runAll world.fire on rest) = _
    rw [done]
    exact run

theorem Triple.script_commit {ss : List Stmt} :
    Triple (Working file work on) (script world (ss.map .stmt ++ [.commit]))
      (fun _ c => ∃ db, runAll world.fire on ss work = .ok db ∧ Idle db on c) (Left file) := by
  induction ss generalizing work with
  | nil =>
    refine Triple.bind (exec_commit.weaken (fun _ h => h) (fun _ _ h => h) Working.left) ?_
    exact fun _ c idle => ⟨work, rfl, idle⟩
  | cons s rest ih =>
    refine Triple.bind (exec_stmt.weaken (fun _ h => h) (fun _ _ h => h) Working.left) ?_
    intro _
    refine Triple.ex fun mid => Triple.of_and fun done => ?_
    refine ih.weaken (fun _ h => h) ?_ fun _ h => h
    rintro _ c ⟨db, run, idle⟩
    refine ⟨db, ?_, idle⟩
    show (s.run world.fire on work >>= runAll world.fire on rest) = _
    rw [done]
    exact run

/-- A script that is one transaction. -/
theorem Triple.script_transaction {ss : List Stmt} :
    Triple (Idle file on) (script world (.begin :: ss.map .stmt ++ [.commit]))
      (fun _ c => ∃ db, runAll world.fire on ss file = .ok db ∧ Idle db on c) (Left file) :=
  Triple.bind (exec_begin.weaken (fun _ h => h) (fun _ _ h => h) Idle.left) fun _ => script_commit

end Rules

end Lib.Sql
