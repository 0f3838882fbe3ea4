import Cmpath.Router.Session

/-!
# Which events are recorded

An event is recorded last: its session's task is found or made, a prompt is routed, and only then is
the evidence appended. So a prompt whose routing read raises is not recorded.
-/

namespace Cmpath
open Lib Lib.Txn

namespace Router
open TaskMemory (Appendable check_ok)

/-- The session's task: the one its alias addresses alone, or a new one where there is none. -/
def SessionTask (host : Host) (db : Db) (session : Text) (task : Int) : Prop :=
  AddressesOnly host db (EventCall.sessionAlias session) task ∨
    (∀ t, ¬ AddressesOnly host db (EventCall.sessionAlias session) t) ∧
      task = db.sequence.tasks + 1

/-- The event is one more message, of the session's task, and nothing else is. -/
def Records (host : Host) (db : Db) (c : EventCall)
    (after : Except Failure EventAnswer × CodexRouter × Db) : Prop :=
  ∃ answer m, after.1 = .ok answer ∧ after.2.2.messages = db.messages ++ [m] ∧
    m.id = answer.evidenceId ∧ m.taskId = answer.taskId ∧ SessionTask host db c.session m.taskId ∧
    m.content = c.content ∧ m.source = c.source ∧ Role.ofText? c.role = some m.role

section Read

variable {host : Host} {router : CodexRouter} {c : CodexCall} {db : Db}

end Read

/-! ## Events -/

section Event

variable {host : Host} {clk : EventClock} {router : CodexRouter} {c : EventCall} {db : Db}

end Event

end Router

end Cmpath
