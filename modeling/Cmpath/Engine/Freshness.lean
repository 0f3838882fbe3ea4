import Cmpath.Engine.Context

/-!
# Scope freshness

`native/engine/freshness.go`: a turn of consistency `scope` captures the epoch of every task of
its scope (of the whole store under key zero when the scope is `all`) and is fresh while these
epochs are the current ones.
-/

namespace Cmpath
open Lib Lib.Txn

/-- The request asks for scope consistency. -/
def Request.scopeBound (r : Request) : Bool := r.consistency == Text.lit "scope"

/-- `scopeEpoch` (`freshness.go:128-137`). -/
def scopeEpoch (id : Int) : Query Int := fun db =>
  match db.epoch? id with
  | some epoch => .ok epoch
  | none => problem .integrity "scope clock is missing"

/-- The keys a basis is captured under: the tasks of the scope, zero for the whole store. -/
def basisKeys (r : Request) : Query (List Int) := fun db => do
  let ids ← scope r.taskId r.scope db
  .ok (ids.getD [0])

/-- `captureBasis` (`freshness.go:7-29`). -/
def captureBasis (r : Request) : Tx Unit :=
  if r.scopeBound then do
    let ids ← read (basisKeys r)
    each ids fun id => do
      let epoch ← read (scopeEpoch id)
      insertBasis ⟨r.requestId, id, epoch⟩
  else pure ()

/-- `turnRequest` (`freshness.go:57-70`). -/
def turnRequest (id : Text) : Query Request := fun db =>
  match db.turn? id with
  | none => problem .notFound "turn does not exist"
  | some t => .ok (Request.ofJson t.requestJson)

/-- `validateBasis` (`freshness.go:31-55`). -/
def validateBasis (id : Text) : Query Unit := fun db => do
  let r ← turnRequest id db
  if !r.scopeBound then .ok ()
  else
    let rows := db.turnBasis.filter (·.requestId == id)
    if rows.isEmpty then
      problem .staleContext "turn scope basis is missing; abort and prepare a new turn"
    else if rows.any fun b => some b.epoch != db.epoch? b.taskId then
      problem .staleContext "memory in the turn scope changed; abort and prepare a new turn"
    else .ok ()

/-- `advanceBasis` (`freshness.go:139-148`). -/
def advanceBasis (id : Text) (taskId before : Int) : Tx Unit := do
  let after ← read (scopeEpoch taskId)
  modify fun db =>
    { db with
      turnBasis := Table.update (fun b => b.requestId == id && b.taskId == taskId)
        (fun b => { b with epoch := b.epoch + (after - before) }) db.turnBasis }

/-! ## Provenance -/

/-- `ProvenanceRef` (`harness.go:16-22`). -/
structure ProvenanceRef where
  evidenceId : Int
  kind : Text
  deriving DecidableEq

def ProvenanceRef.toJson (p : ProvenanceRef) : Json :=
  .obj [(Text.lit "evidence_id", .int p.evidenceId), (Text.lit "kind", .str p.kind)]

/-- Read a `ProvenanceRef` back. -/
def ProvenanceRef.ofJson (j : Json) : ProvenanceRef :=
  ⟨((j.get? (Text.lit "evidence_id")).getD .null).integer,
    ((j.get? (Text.lit "kind")).getD .null).text⟩

/-- The kinds of edge `validateProvenance` knows. -/
def EdgeKind.ofText? (t : Text) : Option EdgeKind :=
  [EdgeKind.supports, .contradicts].find? fun k => k.text == t

/-- One reference (`freshness.go:95-125`): `allowed` is `none` for the whole store. -/
def checkReference (db : Db) (allowed : Option (List Int)) (seen : List ProvenanceRef)
    (ref : ProvenanceRef) : Except Failure Unit :=
  if ref.evidenceId < 1 || (EdgeKind.ofText? ref.kind).isNone then
    problem .invalid "provenance requires a positive evidence ID and kind supports or contradicts"
  else if seen.contains ref then problem .invalid "duplicate provenance edge"
  else
    match db.message? ref.evidenceId with
    | none => problem .staleContext "provenance evidence no longer exists"
    | some m =>
        if !allowed.all (·.contains m.taskId) then
          problem .invalid "provenance evidence is outside the turn scope"
        else if ref.kind == EdgeKind.contradicts.text then
          problem .conflict
            "contradictory provenance must be resolved before publishing derived state"
        else if db.facts.any fun f => f.evidenceId == ref.evidenceId && f.retracted then
          problem .staleContext "provenance source has been retracted"
        else .ok ()

/-- The references in turn. -/
def checkReferences (db : Db) (allowed : Option (List Int)) :
    List ProvenanceRef → List ProvenanceRef → Except Failure Unit
  | _, [] => .ok ()
  | seen, ref :: rest => do
      checkReference db allowed seen ref
      checkReferences db allowed (ref :: seen) rest

/-- `validateProvenance` (`freshness.go:72-126`). -/
def validateProvenance (r : Request) (taskId : Int) (refs : List ProvenanceRef) : Query Unit :=
  fun db =>
    if refs.isEmpty then .ok ()
    else do
      let allowed ← scope taskId r.scope db
      checkReferences db allowed [] refs

/-! ## Taking the queries apart -/

theorem scopeEpoch_ok {id epoch : Int} {db : Db} :
    scopeEpoch id db = .ok epoch ↔ db.epoch? id = some epoch := by
  unfold scopeEpoch
  cases db.epoch? id with
  | none => simp [problem]
  | some e => simp

theorem turnRequest_ok {id : Text} {db : Db} {r : Request} :
    turnRequest id db = .ok r ↔ ∃ t, db.turn? id = some t ∧ r = Request.ofJson t.requestJson := by
  unfold turnRequest
  cases db.turn? id with
  | none => simp [problem]
  | some t =>
    simp only [Except.ok.injEq, Option.some.injEq, exists_eq_left']
    exact eq_comm

/-- A scoped turn is fresh exactly when it is in the journal, has a basis, and every epoch of
    the basis is the current one. -/
theorem validateBasis_ok {id : Text} {db : Db} {u : Unit} :
    validateBasis id db = .ok u ↔ ∃ t, db.turn? id = some t ∧
      ((Request.ofJson t.requestJson).scopeBound = true →
        (∃ b ∈ db.turnBasis, b.requestId = id) ∧
          ∀ b ∈ db.turnBasis, b.requestId = id → db.epoch? b.taskId = some b.epoch) := by
  unfold validateBasis
  rw [except_bind_ok]
  simp only [turnRequest_ok]
  constructor
  · rintro ⟨r, ⟨t, found, rfl⟩, run⟩
    refine ⟨t, found, fun bound => ?_⟩
    simp only [bound, Bool.not_true, Bool.false_eq_true, if_false] at run
    split at run
    · simp [problem] at run
    · rename_i nonempty
      split at run
      · simp [problem] at run
      · rename_i fresh
        constructor
        · simpa using nonempty
        · intro b member same
          simp only [List.any_eq_true, not_exists, not_and, List.mem_filter] at fresh
          have agree := fresh b ⟨member, by simpa using same⟩
          rw [bne_iff_ne, not_not] at agree
          exact agree.symm
  · rintro ⟨t, found, fresh⟩
    refine ⟨_, ⟨t, found, rfl⟩, ?_⟩
    cases bound : (Request.ofJson t.requestJson).scopeBound with
    | false => rfl
    | true =>
      obtain ⟨⟨b, member, same⟩, current⟩ := fresh bound
      have own : b ∈ db.turnBasis.filter (·.requestId == id) :=
        List.mem_filter.mpr ⟨member, by simpa using same⟩
      have nonempty : (db.turnBasis.filter (·.requestId == id)).isEmpty = false := by
        cases rows : db.turnBasis.filter (·.requestId == id) with
        | nil => rw [rows] at own; simp at own
        | cons => rfl
      have agree : (db.turnBasis.filter (·.requestId == id)).any
          (fun b => some b.epoch != db.epoch? b.taskId) = false := by
        rw [List.any_eq_false]
        intro b member
        obtain ⟨member, same⟩ := List.mem_filter.mp member
        simp [current b member (by simpa using same)]
      simp [nonempty, agree]

end Cmpath
