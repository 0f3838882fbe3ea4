import Cmpath.Journal.Reply
import Cmpath.Journal.Scope

/-!
# Provenance of a commit

A turn of consistency `scope` that publishes another snapshot names the evidence it comes from. The
sources are checked against the facts before the reply's own facts are written, in one transaction:
what is recorded is sound afterwards exactly when the reply retracts none of its own sources.
-/

namespace Cmpath
open Lib Lib.Txn

/-- The recorded provenance of a turn: it has a supporting source, and each source is a message of a
    task of the scope that no fact revision retracts. -/
structure Provenanced (id : Text) (taskId : Int) (kind : Text) (db : Db) : Prop where
  supported : ∃ p ∈ db.turnProvenance, p.requestId = id ∧ p.kind = .supports
  sound : ∀ p ∈ db.turnProvenance, p.requestId = id →
    ∃ m, db.message? p.evidenceId = some m ∧ InScope db taskId kind m.taskId ∧
      ∀ f ∈ db.facts, f.evidenceId = p.evidenceId → f.retracted = false

/-- The reply replaces the snapshot of the task by a different one. -/
def Reply.Replaces (reply : Reply) (row : TaskRow) : Prop :=
  ∃ s, reply.snapshot = some s ∧ (object s).marshal ≠ (object row.snapshot).marshal

/-- The reply retracts a fact on the evidence of one of its own sources. -/
def Reply.RetractsSource (reply : Reply) : Prop :=
  ∃ f ∈ reply.facts, f.retracted = true ∧ ∃ ref ∈ reply.provenance, ref.evidenceId = f.evidenceId

/-! ## The check -/

/-- What a checked reference names. -/
theorem checkReference_ok {db : Db} {allowed : Option (List Int)} {seen : List ProvenanceRef}
    {ref : ProvenanceRef} (h : checkReference db allowed seen ref = .ok ()) :
    EdgeKind.ofText? ref.kind = some .supports ∧
      ∃ m, db.message? ref.evidenceId = some m ∧ allowed.all (·.contains m.taskId) = true ∧
        ∀ f ∈ db.facts, f.evidenceId = ref.evidenceId → f.retracted = false := by
  unfold checkReference at h
  split at h
  · simp [problem] at h
  rename_i known
  split at h
  · simp [problem] at h
  split at h
  · simp [problem] at h
  rename_i m found
  split at h
  · simp [problem] at h
  rename_i inside
  split at h
  · simp [problem] at h
  rename_i supports
  split at h
  · simp [problem] at h
  rename_i kept
  refine ⟨?_, m, found, by simpa using inside, ?_⟩
  · simp only [Bool.or_eq_true, decide_eq_true_eq, not_or, Option.isNone_iff_eq_none] at known
    cases kind : EdgeKind.ofText? ref.kind with
    | none => exact absurd kind known.2
    | some k =>
      cases k with
      | supports => rfl
      | contradicts =>
        have text := @List.find?_some _ (fun k => EdgeKind.text k == ref.kind) _ _ kind
        exact absurd (beq_iff_eq.mpr (beq_iff_eq.mp text).symm) supports
  · intro f member same
    cases gone : f.retracted with
    | false => rfl
    | true =>
      simp only [Bool.not_eq_true, List.any_eq_false] at kept
      have := kept f member
      simp [same, gone] at this

theorem checkReferences_ok {db : Db} {allowed : Option (List Int)} {ref : ProvenanceRef} :
    ∀ {refs seen : List ProvenanceRef}, checkReferences db allowed seen refs = .ok () →
      ref ∈ refs → ∃ seen, checkReference db allowed seen ref = .ok ()
  | [], _, _, member => absurd member List.not_mem_nil
  | head :: rest, seen, h, member => by
      obtain ⟨⟨⟩, first, later⟩ := except_bind_ok.mp h
      rcases List.mem_cons.mp member with rfl | member
      · exact ⟨seen, first⟩
      · exact checkReferences_ok later member

/-- Every reference of an accepted reply was checked against the scope. -/
theorem validateProvenance_checked {r : Request} {taskId : Int} {refs : List ProvenanceRef} {db : Db}
    (h : validateProvenance r taskId refs db = .ok ()) {ref : ProvenanceRef} (member : ref ∈ refs) :
    ∃ allowed seen, scope taskId r.scope db = .ok allowed ∧
      checkReference db allowed seen ref = .ok () := by
  unfold validateProvenance at h
  split at h
  · rename_i empty
    rw [List.isEmpty_iff.mp empty] at member
    exact absurd member List.not_mem_nil
  · obtain ⟨allowed, walked, run⟩ := except_bind_ok.mp h
    obtain ⟨seen, checked⟩ := checkReferences_ok run member
    exact ⟨allowed, seen, walked, checked⟩

/-- It is a supporting message of the scope without a retraction. -/
theorem validateProvenance_ok {r : Request} {taskId : Int} {refs : List ProvenanceRef} {db : Db}
    (known : r.scope = Text.lit "task" ∨ r.scope = Text.lit "lineage" ∨ r.scope = Text.lit "all")
    (h : validateProvenance r taskId refs db = .ok ()) {ref : ProvenanceRef} (member : ref ∈ refs) :
    EdgeKind.ofText? ref.kind = some .supports ∧
      ∃ m, db.message? ref.evidenceId = some m ∧ InScope db taskId r.scope m.taskId ∧
        ∀ f ∈ db.facts, f.evidenceId = ref.evidenceId → f.retracted = false := by
  obtain ⟨allowed, seen, walked, checked⟩ := validateProvenance_checked h member
  obtain ⟨supports, m, found, inside, kept⟩ := checkReference_ok checked
  exact ⟨supports, m, found, (scope_mem known walked _).mp inside, kept⟩

/-! ## What a scoped turn was packed from -/

/-- A package shows the snapshot of its task. -/
theorem pack_snapshot {host : Host} {r : Request} {c : Counter} {db : Db} {p : Package}
    (h : pack host r c db = .ok p) : ∃ t, task r.taskId db = .ok t ∧ p.snapshot = t.snapshot := by
  obtain ⟨t, found, h⟩ := except_bind_ok.mp h
  obtain ⟨ids, _, h⟩ := except_bind_ok.mp h
  obtain ⟨used, _, h⟩ := except_bind_ok.mp h
  by_cases exceeds : used > r.budget - r.reserve
  · simp [exceeds, problem] at h
  · dsimp only at h
    rw [if_neg exceeds] at h
    obtain ⟨_, _, h⟩ := except_bind_ok.mp h
    obtain ⟨_, _, h⟩ := except_bind_ok.mp h
    obtain ⟨_, _, h⟩ := except_bind_ok.mp h
    obtain ⟨_, _, h⟩ := except_bind_ok.mp h
    obtain ⟨_, _, h⟩ := except_bind_ok.mp h
    cases h
    exact ⟨t, found, rfl⟩

theorem Package.snapshot_encode (p : Package) :
    (Package.ofJson (encode p.toJson)).snapshot = encode p.snapshot := rfl

/-- What the engine reads as an object is what it stores. -/
theorem encode_object (j : Json) : encode (object j) = object j := by
  unfold encode object
  split
  · rename_i fields
    show Json.obj (Json.scrubFields _) = _
    rw [Json.scrubFields_of_canonical (Json.canonicalFields_canon fields)]
  · rfl

/-- A scoped turn and the task row its package shows, with everything that ran since. -/
def Anchored (u : TurnRow) (db : Db) : Prop :=
  ∃ r t ids start row foreign results, Anchor r t ids start ∧ start.task? t.taskId = some row ∧
    (Package.ofJson t.packageJson).snapshot = object row.snapshot ∧ t.sameRecord u ∧
    (∀ x ∈ foreign, x.old.isSome ∨ x.new.isSome) ∧
    Tracked t (fun id => ids.all (·.contains id)) (ids.getD [0]) start foreign results db

section Step

variable {host : Host} {kind : Kind} {db db' : Db}

theorem Anchored.step {u v : TurnRow} (h : Anchored u db) (keys : JournalKeys db.toJournal)
    (step : Step) (member : v ∈ (step.next host db).turns) (record : u.sameRecord v) :
    Anchored v (step.next host db) := by
  obtain ⟨r, t, ids, start, row, foreign, results, anchor, found, packed, same, named, tracked⟩ := h
  have still := TurnRow.sameRecord_trans same record
  have later : ∃ v ∈ (step.next host db).turns, t.sameRecord v := ⟨v, member, still⟩
  cases own : step.finishes t.requestId with
  | true =>
    exact ⟨r, t, ids, start, row, foreign, _, anchor, found, packed, still, named,
      tracked.finish keys anchor.positive.ne' anchor.mine step own later⟩
  | false =>
    refine ⟨r, t, ids, start, row, _, results, anchor, found, packed, still, ?_,
      tracked.other keys step own later⟩
    intro x inside
    rcases List.mem_append.mp inside with inside | inside
    · exact (step.logged host db).named x inside
    · exact named x inside

/-- A turn the journal did not know was begun just now. -/
theorem Change.turn_begun (c : Change host kind db db') (keys : JournalKeys db.toJournal)
    {u : TurnRow} (member : u ∈ db'.turns) (unknown : db.turn? u.requestId = none) :
    ∃ clk r c row payload basis, (∃ input, Normal input r) ∧
      Begun host clk r c row payload basis db db' ∧
      u = newTurn host clk r row.reopenedRevision payload := by
  have known : ∀ {s : TurnRow}, s ∈ db.turns → s.requestId = u.requestId → False :=
    fun source same => turn?_none unknown _ source same
  cases c with
  | additive evolves =>
    rw [congrArg Journal.turns evolves.journal] at member
    exact (known member rfl).elim
  | begun clk r c row payload basis input custom normal begun =>
    have turns := member
    rw [congrArg Journal.turns begun.journal] at turns
    rcases List.mem_append.mp turns with old | new
    · exact (known old rfl).elim
    · exact ⟨clk, r, c, row, payload, basis, ⟨input, normalizeRequest_ok normal⟩, begun,
        List.mem_singleton.mp new⟩
  | recovered now id t row live pending task revision =>
    obtain ⟨s, source, same⟩ := Table.mem_update.mp member
    refine (known source ?_).elim
    rw [same]
    split <;> rfl
  | aborted now id t live pending =>
    obtain ⟨s, source, same⟩ := Table.mem_update.mp member
    refine (known source ?_).elim
    rw [same]
    split <;> rfl
  | committed clk id generation reply t row facts snapshot edges committed =>
    rw [congrArg Journal.turns committed.journal] at member
    obtain ⟨s, source, same⟩ := Table.mem_update.mp member
    refine (known source ?_).elim
    rw [same]
    split <;> rfl
  | toolFinished clk id callId raw t call live pending known' started finished =>
    obtain ⟨_, _, journal⟩ := finished.journal
    rw [congrArg Journal.turns journal] at member
    exact (known member rfl).elim
  | retired retiredAt cutoff =>
    rw [congrArg Journal.turns (retireAll_journal keys retiredAt cutoff)] at member
    exact (known (Table.mem_delete.mp member).1 rfl).elim
  | _ => exact (known member rfl).elim

theorem Begun.anchored {clk : Clock} {r : Request} {c : Counter} {row : TaskRow}
    {payload : Package} {basis : List BasisRow}
    (h : Begun host clk r c row payload basis db db') (keys : JournalKeys db.toJournal)
    (normal : ∃ input, Normal input r) (bound : r.scopeBound = true) (linked : db'.Linked)
    (numbered : db'.Numbered) :
    Anchored (newTurn host clk r row.reopenedRevision payload) db' := by
  obtain ⟨ids, anchor, tracked⟩ := h.tracked keys normal bound linked numbered
  obtain ⟨t, found, same⟩ := pack_snapshot h.packed
  obtain ⟨now, here, _, _, _, snapshot⟩ := task_ok found
  refine ⟨r, _, ids, db', now, [], [], anchor, ?_, ?_, TurnRow.sameRecord_refl _, by simp, tracked⟩
  · rw [h.after]
    exact here
  · show (Package.ofJson (encode payload.toJson)).snapshot = _
    rw [Package.snapshot_encode, same, snapshot, encode_object]

/-- Every scoped turn of a reachable database is anchored. -/
theorem Reachable.anchored (h : Reachable host db) :
    ∀ u ∈ db.turns, (Request.ofJson u.requestJson).scopeBound = true → Anchored u db := by
  refine (h.inv (P := fun d => Reachable host d ∧ ∀ u ∈ d.turns,
    (Request.ofJson u.requestJson).scopeBound = true → Anchored u d) ⟨⟨[], rfl⟩, by simp [Db.empty]⟩
    ?_).2
  rintro db step ⟨reachable, old⟩
  have later : Reachable host (step.next host db) := by
    obtain ⟨steps, rfl⟩ := reachable
    exact ⟨steps ++ [step], by rw [runSteps_append]; rfl⟩
  refine ⟨later, fun v member bound => ?_⟩
  have keys := reachable.keys
  rcases step.change host db with change | evolves
  · cases before : db.turn? v.requestId with
    | some u =>
      have record := change.turn_task keys member (turn?_mem before) (turn?_id before)
      rw [record.2.2.2.1] at bound
      exact (old u (turn?_mem before) bound).step keys step member record
    | none =>
      obtain ⟨clk, r, c, row, payload, basis, normal, begun, rfl⟩ :=
        change.turn_begun keys member before
      refine begun.anchored keys normal ?_ later.linked later.numbered
      obtain ⟨input, normal⟩ := normal
      rw [← normal.decoded.2, ← Request.ofJson_encode]
      exact bound
  · have source := member
    rw [congrArg Journal.turns evolves.journal] at source
    exact (old v source bound).step keys step member (TurnRow.sameRecord_refl v)

/-- A pending turn has recorded no provenance. -/
def Unpublished (j : Journal) : Prop :=
  ∀ t ∈ j.turns, t.status = .pending → ∀ p ∈ j.turnProvenance, p.requestId ≠ t.requestId

theorem Unpublished.update {j : Journal} (h : Unpublished j) {id : Text} {f : TurnRow → TurnRow}
    (keep : ∀ t, (f t).requestId = t.requestId)
    (status : ∀ t, (f t).status = .pending → t.status = .pending) :
    Unpublished { j with turns := Table.update (·.requestId == id) f j.turns } := by
  intro t member pending p edge
  obtain ⟨s, source, rfl⟩ := Table.mem_update.mp member
  split at pending
  · rename_i hit
    rw [if_pos hit, keep]
    exact h s source (status s pending) p edge
  · rename_i miss
    rw [if_neg miss]
    exact h s source pending p edge

theorem Change.unpublished (c : Change host kind db db') (keys : JournalKeys db.toJournal)
    (h : Unpublished db.toJournal) : Unpublished db'.toJournal := by
  cases c with
  | additive evolves =>
    rw [evolves.journal]
    exact h
  | begun clk r c row payload basis input custom normal begun =>
    rw [begun.journal]
    intro t member pending p edge
    rcases List.mem_append.mp member with member | member
    · exact h t member pending p edge
    · obtain ⟨s, source, same⟩ := keys.provenanceTurn p edge
      rw [List.mem_singleton.mp member, ← same]
      exact turn?_none begun.unknown s source
  | recovered => exact h.update (fun _ => rfl) fun _ pending => pending
  | aborted => exact h.update (fun _ => rfl) fun _ gone => by cases gone
  | committed clk id generation reply t row facts snapshot edges committed =>
    rw [committed.journal]
    intro u member pending p edge
    have kept := @Unpublished.update _ h id (TurnRow.commit (encode reply.toJson)
      (fingerprint host reply.toJson) (clk.now 1)) (fun _ => rfl) fun _ gone => by cases gone
    rcases List.mem_append.mp edge with edge | edge
    · exact kept u member pending p edge
    · obtain ⟨s, source, rfl⟩ := Table.mem_update.mp member
      rw [committed.own p edge]
      split at pending
      · cases pending
      · rename_i miss
        rw [if_neg miss]
        intro same
        exact miss (beq_iff_eq.mpr same.symm)
  | toolFinished clk id callId raw t call live pending known started finished =>
    obtain ⟨_, _, journal⟩ := finished.journal
    rw [journal]
    exact h
  | retired retiredAt cutoff =>
    rw [retireAll_journal keys retiredAt cutoff]
    intro t member pending p edge
    exact h t (Table.mem_delete.mp member).1 pending p (Table.mem_delete.mp edge).1
  | _ => exact h

theorem Reachable.unpublished (h : Reachable host db) : Unpublished db.toJournal := by
  refine (h.inv (P := fun d => JournalKeys d.toJournal ∧ Unpublished d.toJournal)
    ⟨.empty, by simp [Unpublished, Db.empty]⟩ ?_).2
  rintro db step ⟨keys, old⟩
  refine ⟨step.keys keys, ?_⟩
  rcases step.change host db with change | evolves
  · exact change.unpublished keys old
  · rw [evolves.journal]
    exact old

end Step

/-! ## The commit -/

/-- A fresh turn packed the snapshot its task still has. -/
theorem Anchored.packed {u : TurnRow} {row : TaskRow} {db : Db} (h : Anchored u db)
    (keys : JournalKeys db.toJournal) (fresh : validateBasis u.requestId db = .ok ())
    (task : db.task? u.taskId = some row) :
    (Package.ofJson u.packageJson).snapshot = object row.snapshot := by
  obtain ⟨r, t, ids, start, old, foreign, results, anchor, found, packed, same, named, tracked⟩ := h
  obtain ⟨id, taskId, _, _, payload, _⟩ := same
  rw [id] at fresh
  have outside := (tracked.fresh anchor keys named).mp fresh
  have rows := congrArg Slice.tasks
    (tracked.rows fun x member => inside_eq_false.mpr (outside x member))
  have mine : ∀ r : TaskRow, (r.id == t.taskId) = true → ids.all (·.contains r.id) = true := by
    intro r hit
    rw [beq_iff_eq.mp hit]
    exact anchor.mine
  have slice : ∀ d : Db, d.task? t.taskId =
      ((d.slice fun id => ids.all (·.contains id)).tasks).find? (·.id == t.taskId) := by
    intro d
    show d.tasks.find? _ = (d.tasks.filter _).find? _
    rw [List.find?_filter]
    congr 1
    funext r
    cases hit : r.id == t.taskId with
    | false => simp
    | true => simpa using mine r hit
  rw [payload, packed]
  rw [taskId, slice db, rows] at task
  rw [slice start] at found
  have same : row = old := Option.some.inj (task.symm.trans found)
  rw [same]

/-- What the commit of a pending turn checked and wrote. -/
theorem commit_applied {host : Host} {clk : Clock} {id : Text} {generation : Int} {reply : Reply}
    {db db' : Db} {out : Turn} (h : commit host clk id generation reply db = .ok (out, db')) :
    (out.replayed = true → db' = db) ∧ (out.replayed = false →
      ∃ t k row mid, commitChecks id generation reply db = .ok (t, k) ∧
        db.task? t.taskId = some row ∧ Applied clk id t row reply db mid ∧ SameEffect db' mid ∧
        db'.dependencies = db.dependencies) := by
  unfold commit at h
  split at h
  · cases h
  split at h
  · cases h
  split at h
  · split at h
    · cases h
    split at h
    · cases h
    · cases h
      exact ⟨fun _ => rfl, fun fresh => by cases fresh⟩
  · obtain ⟨k, mid, writes, record⟩ := commitPending_ok_iff.mp h
    obtain ⟨t, row, checks, _, task, _, applied⟩ := commitWrites_ok writes
    obtain ⟨same, dependencies, _⟩ := recordCommit_ok record
    refine ⟨fun again => ?_, fun _ => ⟨t, k, row, mid, checks, task, applied, same, ?_⟩⟩
    · simp only [recordCommit, bind_ok, read_ok] at record
      obtain ⟨_, _, _, _, _, _, found, _⟩ := record
      obtain ⟨_, _, rfl⟩ := turn_ok.mp found
      cases again
    · rw [dependencies, applied.dependencies]

theorem InScope.congr {a b : Db} (same : a.dependencies = b.dependencies) {taskId : Int}
    {kind : Text} {id : Int} : InScope a taskId kind id ↔ InScope b taskId kind id := by
  unfold InScope
  have parents : a.parents = b.parents := by
    funext id
    unfold Db.parents
    rw [same]
  rw [parents]

theorem Provenanced.congr {a b : Db} (same : SameEffect a b)
    (dependencies : a.dependencies = b.dependencies) {id : Text} {taskId : Int} {kind : Text} :
    Provenanced id taskId kind a ↔ Provenanced id taskId kind b := by
  have message : ∀ e, a.message? e = b.message? e := by
    intro e
    unfold Db.message?
    rw [same.messages]
  constructor <;> rintro ⟨supported, sound⟩
  · refine ⟨same.provenance ▸ supported, fun p member mine => ?_⟩
    obtain ⟨m, found, inside, kept⟩ := sound p (same.provenance ▸ member) mine
    exact ⟨m, message _ ▸ found, (InScope.congr dependencies).mp inside, same.facts ▸ kept⟩
  · refine ⟨same.provenance ▸ supported, fun p member mine => ?_⟩
    obtain ⟨m, found, inside, kept⟩ := sound p (same.provenance ▸ member) mine
    exact ⟨m, message _ ▸ found, (InScope.congr dependencies).mpr inside, same.facts ▸ kept⟩

theorem exists_of_map_eq {α β γ : Type} {f : α → γ} {g : β → γ} {xs : List α} {ys : List β}
    (same : xs.map f = ys.map g) {x : α} (member : x ∈ xs) : ∃ y ∈ ys, g y = f x := by
  have image : f x ∈ ys.map g := by
    rw [← same]
    exact List.mem_map_of_mem member
  exact List.mem_map.mp image

/-- A written reply with checked sources leaves sound provenance unless it retracts one of them. -/
theorem Applied.provenanced {clk : Clock} {id : Text} {t : TurnRow} {row : TaskRow} {reply : Reply}
    {db db' : Db} {kind : Text} (h : Applied clk id t row reply db db')
    (dependencies : db'.dependencies = db.dependencies)
    (unpublished : ∀ p ∈ db.turnProvenance, p.requestId ≠ id)
    (declared : reply.provenance ≠ [])
    (checked : ∀ ref ∈ reply.provenance, EdgeKind.ofText? ref.kind = some .supports ∧
      ∃ m, db.message? ref.evidenceId = some m ∧ InScope db t.taskId kind m.taskId ∧
        ∀ f ∈ db.facts, f.evidenceId = ref.evidenceId → f.retracted = false) :
    Provenanced id t.taskId kind db' ↔ ¬ reply.RetractsSource := by
  obtain ⟨rows, facts, factColumns⟩ := h.facts
  obtain ⟨edges, added, own, edgeColumns⟩ := h.provenance
  have edge : ∀ p ∈ db'.turnProvenance, p.requestId = id → p ∈ edges := by
    intro p member mine
    rw [added] at member
    rcases List.mem_append.mp member with old | new
    · exact absurd mine (unpublished p old)
    · exact new
  have message : ∀ {e : Int} {m : MessageRow}, db.message? e = some m →
      db'.message? e = some m := by
    intro e m found
    unfold Db.message? at found ⊢
    rw [h.messages, List.find?_append, found]
    rfl
  constructor
  · rintro ⟨_, sound⟩ ⟨f, update, retracted, ref, source, same⟩
    obtain ⟨p, recorded, columns⟩ := exists_of_map_eq edgeColumns.symm source
    obtain ⟨r, written, factSame⟩ := exists_of_map_eq factColumns.symm update
    have evidence : p.evidenceId = ref.evidenceId := congrArg Prod.fst columns
    have factEvidence : r.evidenceId = f.evidenceId := congrArg (·.2.2.1) factSame
    have factRetracted : r.retracted = f.retracted := congrArg (·.2.2.2) factSame
    obtain ⟨_, _, _, kept⟩ :=
      sound p (by rw [added]; exact List.mem_append_right _ recorded) (own p recorded)
    have := kept r (by rw [facts]; exact List.mem_append_right _ written)
      (by rw [factEvidence, evidence, same])
    rw [factRetracted, retracted] at this
    cases this
  · intro keeps
    constructor
    · obtain ⟨ref, source⟩ := List.exists_mem_of_ne_nil _ declared
      obtain ⟨p, recorded, columns⟩ := exists_of_map_eq edgeColumns.symm source
      refine ⟨p, by rw [added]; exact List.mem_append_right _ recorded, own p recorded, ?_⟩
      have text : p.kind.text = ref.kind := congrArg Prod.snd columns
      have supports := (checked ref source).1
      rw [← text] at supports
      cases kind : p.kind with
      | supports => rfl
      | contradicts =>
        rw [kind] at supports
        exact absurd supports (by decide)
    · intro p member mine
      have recorded := edge p member mine
      obtain ⟨ref, source, columns⟩ := exists_of_map_eq edgeColumns recorded
      have evidence : ref.evidenceId = p.evidenceId := congrArg Prod.fst columns
      obtain ⟨_, m, found, inside, kept⟩ := checked ref source
      refine ⟨m, message (evidence ▸ found), (InScope.congr dependencies).mpr inside, ?_⟩
      intro f stored same
      rw [facts] at stored
      rcases List.mem_append.mp stored with old | new
      · exact kept f old (same.trans evidence.symm)
      · obtain ⟨update, listed, factSame⟩ := exists_of_map_eq factColumns new
        have factEvidence : update.evidenceId = f.evidenceId := congrArg (·.2.2.1) factSame
        have factRetracted : update.retracted = f.retracted := congrArg (·.2.2.2) factSame
        cases gone : f.retracted with
        | false => rfl
        | true =>
          exact absurd ⟨update, listed, factRetracted.trans gone, ref, source,
            evidence.trans (same.symm.trans factEvidence.symm)⟩ keeps

/-- **Provenance of a committed snapshot.** When the commit of a scoped turn replaces the snapshot
    of its task, what it recorded as provenance is sound in the database it leaves if and only if
    the reply retracts no fact on the evidence of one of its own sources. A commit that is only
    answered again changes nothing. -/
theorem provenance_exact {host : Host} {db : Db} (reachable : Reachable host db) {clk : Clock}
    {id : Text} {generation : Int} {reply : Reply} {out : Turn} {db' : Db}
    (run : Step.exec host ⟨clk, .engine (.commit id generation reply)⟩ db = (.ok (.turn out), db'))
    {t : TurnRow} (live : db.turn? id = some t)
    (bound : (Request.ofJson t.requestJson).scopeBound = true) {row : TaskRow}
    (task : db.task? t.taskId = some row) (replaces : reply.Replaces row) :
    (out.replayed = true → db' = db) ∧
      (out.replayed = false →
        (Provenanced id t.taskId (Request.ofJson t.requestJson).scope db' ↔
          ¬ reply.RetractsSource)) := by
  obtain ⟨_, ran, answer⟩ := responding_ok.mp (atomic_ok.mp run)
  cases answer
  obtain ⟨again, first⟩ := commit_applied ran
  refine ⟨again, fun fresh => ?_⟩
  obtain ⟨t', k, row', mid, checks, task', applied, same, dependencies⟩ := first fresh
  obtain ⟨live', pending, _, fresh, known, accepted, provenance, _, _⟩ :=
    commitChecks_ok_iff.mp checks
  rw [live] at live'
  cases live'
  rw [task] at task'
  cases task'
  have keys := reachable.keys
  have anchored := reachable.anchored t (turn?_mem live) bound
  have scope : (Request.ofJson t.requestJson).scope = Text.lit "task" ∨
      (Request.ofJson t.requestJson).scope = Text.lit "lineage" ∨
      (Request.ofJson t.requestJson).scope = Text.lit "all" := by
    obtain ⟨r, u, ids, start, _, _, _, anchor, _, _, same, _⟩ := anchored
    obtain ⟨input, normal⟩ := anchor.normal
    rw [same.2.2.2.1, anchor.stored.1]
    exact normal.scope
  have packed := anchored.packed keys (by rw [turn?_id live]; exact fresh) task
  obtain ⟨s, given, differs⟩ := replaces
  have changed : snapshotChanged (.ofJson t.packageJson) reply = true := by
    unfold snapshotChanged
    rw [given, packed]
    simpa using Ne.symm differs
  have declared : reply.provenance ≠ [] := by
    intro none_
    unfold TurnRow.refuses at accepted
    rw [bound, changed, none_] at accepted
    cases accepted
  obtain ⟨_, _, taskId, _⟩ := task_ok known
  rw [taskId] at provenance
  rw [Provenanced.congr same (dependencies.trans applied.dependencies.symm)]
  refine applied.provenanced applied.dependencies ?_ declared
    fun ref member => validateProvenance_ok scope provenance member
  intro p member
  rw [← turn?_id live]
  exact reachable.unpublished t (turn?_mem live) pending p member

/-! ## Commits of the small store -/

/-- A pending turn of consistency `scope`; its query is message one. -/
def scopedTurn : List Step := scopedTask ++ [scopedBegin]

/-- A new snapshot from message one, with the given facts. -/
def sourcedReply (facts : List FactUpdate) : Reply :=
  { text := Text.lit "x", snapshot := some (.obj [(Text.lit "a", .int 1)]), facts := facts
    provenance := [⟨1, Text.lit "supports"⟩] }

def sourcedCommit (facts : List FactUpdate) : Step :=
  plainStep (.commit (Text.lit "r") 1 (sourcedReply facts))

theorem sourcedReply_replaces (facts : List FactUpdate) {row : TaskRow}
    (same : (object row.snapshot).marshal = (Json.obj []).marshal) :
    (sourcedReply facts).Replaces row :=
  ⟨_, rfl, by rw [same]; decide⟩

/-- What the commits below find. -/
theorem scopedTurn_found :
    (∃ t, (runSteps plainHost .empty scopedTurn).turn? (Text.lit "r") = some t ∧ t.taskId = 1 ∧
      (Request.ofJson t.requestJson).scope = Text.lit "task" ∧
      (Request.ofJson t.requestJson).scopeBound = true) ∧
    ∃ row, (runSteps plainHost .empty scopedTurn).task? 1 = some row ∧
      ∀ facts, (sourcedReply facts).Replaces row := by
  obtain ⟨t, found, same⟩ := (Option.any_eq_true (fun t : TurnRow => t.taskId == 1 &&
      (Request.ofJson t.requestJson).scope == Text.lit "task" &&
      (Request.ofJson t.requestJson).scopeBound)
    ((runSteps plainHost .empty scopedTurn).turn? (Text.lit "r"))).mp (by decide +kernel)
  obtain ⟨row, here, empty⟩ := (Option.any_eq_true
    (fun row : TaskRow => (object row.snapshot).marshal == (Json.obj []).marshal)
    ((runSteps plainHost .empty scopedTurn).task? 1)).mp (by decide +kernel)
  simp only [Bool.and_eq_true, beq_iff_eq] at same empty
  exact ⟨⟨t, found, same.1.1, same.1.2, same.2⟩, row, here, fun facts =>
    sourcedReply_replaces facts empty⟩

/-- A commit that retracts nothing. -/
theorem provenance_exact_kept :
    Provenanced (Text.lit "r") 1 (Text.lit "task")
      ((sourcedCommit []).next plainHost (runSteps plainHost .empty scopedTurn)) := by
  obtain ⟨out, run, fresh⟩ := exists_turn (p := fun t => !t.replayed)
    (x := (Step.exec plainHost (sourcedCommit []) (runSteps plainHost .empty scopedTurn)).1)
    (by decide +kernel)
  obtain ⟨⟨t, found, taskId, kind, bound⟩, row, here, replaces⟩ := scopedTurn_found
  have sound := (provenance_exact ⟨scopedTurn, rfl⟩ (Prod.ext run rfl) found bound
    (taskId ▸ here) (replaces [])).2 (by simpa using fresh)
  rw [taskId, kind] at sound
  refine sound.mpr ?_
  rintro ⟨f, member, _⟩
  exact absurd member List.not_mem_nil

/-- A fact that retracts message one. -/
def retraction : FactUpdate := ⟨Text.lit "k", .null, 1, true⟩

/-- A commit that replaces the snapshot and retracts its own source is accepted, and records a
    retracted source. -/
theorem provenance_retracted :
    (∃ out, (Step.exec plainHost (sourcedCommit [retraction])
      (runSteps plainHost .empty scopedTurn)).1 = .ok (.turn out) ∧ out.replayed = false) ∧
    (∃ t, (runSteps plainHost .empty scopedTurn).turn? (Text.lit "r") = some t ∧ t.taskId = 1 ∧
      (Request.ofJson t.requestJson).scope = Text.lit "task" ∧
      (Request.ofJson t.requestJson).scopeBound = true) ∧
    (∃ row, (runSteps plainHost .empty scopedTurn).task? 1 = some row ∧
      (sourcedReply [retraction]).Replaces row) ∧
    ¬ Provenanced (Text.lit "r") 1 (Text.lit "task")
      ((sourcedCommit [retraction]).next plainHost (runSteps plainHost .empty scopedTurn)) := by
  obtain ⟨live, row, here, replaces⟩ := scopedTurn_found
  refine ⟨?_, live, ⟨row, here, replaces _⟩, ?_⟩
  · obtain ⟨out, run, fresh⟩ := exists_turn (p := fun t => !t.replayed)
      (x := (Step.exec plainHost (sourcedCommit [retraction])
        (runSteps plainHost .empty scopedTurn)).1) (by decide +kernel)
    exact ⟨out, run, by simpa using fresh⟩
  · rintro ⟨_, sound⟩
    have edge : ∃ p ∈ ((sourcedCommit [retraction]).next plainHost
        (runSteps plainHost .empty scopedTurn)).turnProvenance,
        p.requestId = Text.lit "r" ∧ p.evidenceId = 1 := by decide +kernel
    have retracted : (((sourcedCommit [retraction]).next plainHost
        (runSteps plainHost .empty scopedTurn)).facts.any
          fun f => f.evidenceId == 1 && f.retracted) = true := by decide +kernel
    obtain ⟨p, member, own, source⟩ := edge
    obtain ⟨f, stored, marks⟩ := List.any_eq_true.mp retracted
    simp only [Bool.and_eq_true, beq_iff_eq] at marks
    obtain ⟨_, _, _, kept⟩ := sound p member own
    have := kept f stored (marks.1.trans source.symm)
    rw [marks.2] at this
    cases this

end Cmpath
