import Cmpath.Lib.Text

/-!
# Transactions with savepoints

A connection to a store, its transaction and the stack of named savepoints inside it. A name stands
for the most recent savepoint of that name.
-/

namespace Lib

/-- A connection: outside a transaction, or inside one with what is committed, what the connection
    sees, whether a `BEGIN` opened it, and the savepoints, innermost first, each with the state it
    was set in. -/
inductive Session (σ : Type) where
  | idle (file : σ)
  | within (file now : σ) (begun : Bool) (saves : List (Text × σ))

/-- What SQLite says of a transaction statement in the wrong place. -/
inductive SavepointError where
  | nested
  | noTransaction
  | noSuchSavepoint
  deriving DecidableEq, Repr

namespace Session

variable {σ : Type}

/-- What is committed. -/
def file : Session σ → σ
  | .idle file => file
  | .within file _ _ _ => file

/-- What the connection sees. -/
def now : Session σ → σ
  | .idle file => file
  | .within _ now _ _ => now

/-- `in_transaction`. -/
def inTransaction : Session σ → Bool
  | .idle _ => false
  | .within _ _ _ _ => true

/-- A statement that leaves the store as it says; outside a transaction it commits. -/
def put (s : σ) : Session σ → Session σ
  | .idle _ => .idle s
  | .within file _ begun saves => .within file s begun saves

/-- `BEGIN`. -/
def begin_ : Session σ → Except SavepointError (Session σ)
  | .idle file => .ok (.within file file true [])
  | .within _ _ _ _ => .error .nested

/-- `COMMIT`. -/
def commit : Session σ → Except SavepointError (Session σ)
  | .idle _ => .error .noTransaction
  | .within _ now _ _ => .ok (.idle now)

/-- `ROLLBACK`. -/
def rollback : Session σ → Except SavepointError (Session σ)
  | .idle _ => .error .noTransaction
  | .within file _ _ _ => .ok (.idle file)

/-- `SAVEPOINT name`; outside a transaction it opens one. -/
def savepoint (name : Text) : Session σ → Session σ
  | .idle file => .within file file false [(name, file)]
  | .within file now begun saves => .within file now begun ((name, now) :: saves)

/-- The savepoints from the most recent one of the name on. -/
def upTo (name : Text) (saves : List (Text × σ)) : List (Text × σ) :=
  saves.dropWhile fun save => save.1 != name

/-- `ROLLBACK TO name`: back to the state of the savepoint, which stays. -/
def rollbackTo (name : Text) : Session σ → Except SavepointError (Session σ)
  | .idle _ => .error .noSuchSavepoint
  | .within file _ begun saves =>
      match upTo name saves with
      | [] => .error .noSuchSavepoint
      | save :: saves => .ok (.within file save.2 begun (save :: saves))

/-- `RELEASE name`: the savepoint and those after it go, their changes stay. Releasing the
    savepoint that opened the transaction commits it. -/
def release (name : Text) : Session σ → Except SavepointError (Session σ)
  | .idle _ => .error .noSuchSavepoint
  | .within file now begun saves =>
      match upTo name saves with
      | [] => .error .noSuchSavepoint
      | _ :: saves =>
          if saves.isEmpty && !begun then .ok (.idle now) else .ok (.within file now begun saves)

variable {file now s : σ} {begun : Bool} {name : Text} {saves : List (Text × σ)}

@[simp] theorem upTo_top : upTo name ((name, s) :: saves) = (name, s) :: saves := by
  simp [upTo]

/-- To roll back to the innermost savepoint undoes what was done since it was set. -/
@[simp] theorem rollbackTo_top :
    (Session.within file now begun ((name, s) :: saves)).rollbackTo name =
      .ok (.within file s begun ((name, s) :: saves)) := by
  simp [rollbackTo]

/-- In a transaction a `BEGIN` opened, releasing the innermost savepoint keeps what was done. -/
@[simp] theorem release_top :
    (Session.within file now true ((name, s) :: saves)).release name =
      .ok (.within file now true saves) := by
  simp [release]

end Session

end Lib
