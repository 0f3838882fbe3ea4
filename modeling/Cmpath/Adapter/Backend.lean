import Cmpath.Engine.Harness
import Cmpath.Lib.Dumps

/-!
# The engine behind a pipe

`NativeBackend.call` (`src/cmpath/harness.py:131-174`): one operation of the engine as a Python host
runs it. The arguments travel as one line of JSON; what cannot be written or is too long never
leaves, and an integer that Go cannot hold is refused before the operation runs.
-/

namespace Cmpath
open Lib Lib.Txn

/-- The code of an engine error on the wire. -/
def Code.wire : Code → String
  | .invalid => "invalid"
  | .notFound => "not_found"
  | .retired => "retired"
  | .state => "state"
  | .fenced => "fenced"
  | .conflict => "conflict"
  | .busy => "busy"
  | .staleContext => "stale_context"
  | .provenanceRequired => "provenance_required"
  | .indeterminateTool => "indeterminate_tool"
  | .budget => "budget"
  | .integrity => "integrity"
  | .stalePlan => "stale_plan"
  | .inProgress => "in_progress"

/-- `Code(err)` (`engine.go:59-80`). -/
def Failure.code : Failure → String
  | .problem code _ => code.wire
  | .constraint _ => "storage_error"
  | .raised _ _ => "internal_error"

/-- What fails on the Python side: the engine's answer and what the adapters raise under its name
    (`HarnessError`), a refusal of the control plane (`ControlPlaneError`), a `ValueError`. -/
inductive HostError where
  | engine (failure : Failure)
  | indeterminateTool (callId : Text)
  | control (code : String) (message : Text)
  | value (message : String)

/-- The code a host sees; a `ValueError` has the one `_fail` writes for it
    (`control_plane.py:532-543`). -/
def HostError.code : HostError → String
  | .engine failure => failure.code
  | .indeterminateTool _ => "indeterminate_tool"
  | .control code _ => code
  | .value _ => "invalid"

/-- A Python integer that an `int64` holds. -/
def int64 (n : Int) : Bool := decide (-(2 ^ 63) ≤ n) && decide (n < 2 ^ 63)

/-- `NativeBackend.MAX_FRAME`. -/
def maxFrame : Nat := 16 * 1024 * 1024

/-- The request line; of the random identifier only the length counts. -/
def frame (operation : String) (arguments : Json) : Text :=
  (Json.obj [(Text.lit "v", .int 1), (Text.lit "id", .str (List.replicate 32 (.char '0'))),
    (Text.lit "op", .str (Text.lit operation)), (Text.lit "args", arguments)]).dumps ++
    [.char '\n']

/-- The arguments can be written as one line of finite UTF-8 JSON within the limit. -/
def sendable (operation : String) (arguments : Json) : Bool :=
  arguments.sound && arguments.finite && decide ((frame operation arguments).size ≤ maxFrame)

/-- `NativeBackend.call`; `decodes` tells whether Go can hold the integers of the arguments. -/
def backendCall {α : Type} (operation : String) (arguments : Json) (decodes : Bool) (t : Tx α)
    (db : Db) : Except HostError α × Db :=
  if !sendable operation arguments then
    (.error (.value "native request cannot be encoded or exceeds the 16 MiB frame limit"), db)
  else if !decodes then
    (.error (.engine (.problem .invalid "cannot unmarshal number into Go value of type int64")), db)
  else
    match atomic t db with
    | (.ok a, db') => (.ok a, db')
    | (.error e, db') => (.error (.engine e), db')

section Call

variable {α : Type} {operation : String} {arguments : Json} {decodes : Bool} {t : Tx α} {db : Db}

/-- A call the pipe does not carry is refused as invalid and runs nothing. -/
theorem backendCall_refused (t : Tx α) (db : Db)
    (h : (sendable operation arguments && decodes) = false) :
    ∃ e, backendCall operation arguments decodes t db = (.error e, db) ∧ e.code = "invalid" := by
  unfold backendCall
  by_cases sent : sendable operation arguments = true
  · have undecoded : decodes = false := by simpa [sent] using h
    rw [undecoded, sent]
    exact ⟨_, rfl, rfl⟩
  · rw [Bool.eq_false_iff.mpr sent]
    exact ⟨_, rfl, rfl⟩

theorem backendCall_ok (h : (sendable operation arguments && decodes) = true) {a : α} {db' : Db}
    (run : t db = .ok (a, db')) : backendCall operation arguments decodes t db = (.ok a, db') := by
  rw [Bool.and_eq_true] at h
  unfold backendCall
  rw [h.1, h.2, atomic_ok.mpr run]
  rfl

theorem backendCall_error (h : (sendable operation arguments && decodes) = true) {e : Failure}
    (run : t db = .error e) :
    backendCall operation arguments decodes t db = (.error (.engine e), db) := by
  rw [Bool.and_eq_true] at h
  unfold backendCall
  rw [h.1, h.2, atomic_of_error run]
  rfl

end Call

end Cmpath
