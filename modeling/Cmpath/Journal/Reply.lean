import Cmpath.Journal.Invariant
import Cmpath.Lib.Canon

/-!
# What a reply does

The commit of a pending turn, taken apart: its checks, the writes of the reply (`Applied`), the
record of the commit in the journal. The writes depend on the reply through its text, the columns
of its facts, the snapshot it publishes and its provenance, and on nothing else of it.
-/

namespace Cmpath
open Lib Lib.Txn

/-- The columns of a fact row that an update decides. -/
def FactUpdate.columns (f : FactUpdate) : Text × Json × Int × Bool :=
  (f.key, encode f.value.canon, f.evidenceId, f.retracted)

def FactRow.columns (f : FactRow) : Text × Json × Int × Bool :=
  (f.key, f.value, f.evidenceId, f.retracted)

/-- The columns of a provenance row that a reference decides. -/
def ProvenanceRef.columns (r : ProvenanceRef) : Int × Text := (r.evidenceId, r.kind)

def ProvenanceRow.columns (p : ProvenanceRow) : Int × Text := (p.evidenceId, p.kind.text)

/-- The snapshot of the task once the reply is committed (`harness.go:281-290`). -/
def Reply.published (reply : Reply) (row : TaskRow) : Json :=
  encode (object (reply.snapshot.getD (object row.snapshot)))

/-- What a committed reply wrote to the tables. -/
structure Applied (clk : Clock) (id : Text) (t : TurnRow) (row : TaskRow) (reply : Reply)
    (db db' : Db) : Prop where
  messages : db'.messages = db.messages ++ [replyMessage db clk id t.taskId reply]
  facts : ∃ rows, db'.facts = db.facts ++ rows ∧
    rows.map FactRow.columns = reply.facts.map FactUpdate.columns
  tasks : db'.tasks = Table.replace (·.id == row.id) (row.withSnapshot (reply.published row)) db.tasks
  provenance : ∃ edges, db'.turnProvenance = db.turnProvenance ++ edges ∧
    (∀ p ∈ edges, p.requestId = id) ∧
    edges.map ProvenanceRow.columns = reply.provenance.map ProvenanceRef.columns
  dependencies : db'.dependencies = db.dependencies
  aliases : db'.aliases = db.aliases

/-! ## The checks -/

/-- The commit wants provenance of the reply that it does not have (`harness.go:236-250`). -/
def TurnRow.refuses (t : TurnRow) (reply : Reply) : Bool :=
  (Request.ofJson t.requestJson).scopeBound && snapshotChanged (.ofJson t.packageJson) reply &&
    reply.provenance.isEmpty

theorem commitChecks_ok_iff {id : Text} {generation : Int} {reply : Reply} {db : Db} {t : TurnRow}
    {k : Task} : commitChecks id generation reply db = .ok (t, k) ↔
      db.turn? id = some t ∧ t.status = .pending ∧ t.generation = generation ∧
        validateBasis id db = .ok () ∧ task t.taskId db = .ok k ∧ t.refuses reply = false ∧
        validateProvenance (Request.ofJson t.requestJson) k.id reply.provenance db = .ok () ∧
        k.revision = t.taskRevision ∧
        (db.toolCalls.any fun c => c.requestId == id && c.status == .started) = false := by
  simp only [commitChecks, except_bind_ok, pending_ok, turnRequest_ok]
  constructor
  · rintro ⟨t', ⟨live, status, fenced⟩, ⟨⟩, fresh, request, ⟨u, found, rfl⟩, k', known, run⟩
    rw [live] at found
    cases found
    split at run
    · simp [problem] at run
    · rename_i accepted
      simp only [except_bind_ok] at run
      obtain ⟨⟨⟩, provenance, run⟩ := run
      split at run
      · simp [problem] at run
      · rename_i revision
        split at run
        · simp [problem] at run
        · rename_i settled
          cases run
          exact ⟨live, status, fenced, fresh, known, by simpa [TurnRow.refuses] using accepted,
            provenance, by simpa using revision, by simpa using settled⟩
  · rintro ⟨live, status, fenced, fresh, known, accepted, provenance, revision, settled⟩
    refine ⟨t, ⟨live, status, fenced⟩, (), fresh, _, ⟨t, live, rfl⟩, k, known, ?_⟩
    unfold TurnRow.refuses at accepted
    rw [accepted, if_neg Bool.false_ne_true, provenance]
    show (if _ then _ else _) = _
    rw [if_neg (by simpa using revision), settled, if_neg Bool.false_ne_true]

/-! ## The two halves of a commit -/

/-- The writes of a reply (`harness.go:218-295`). -/
def commitWrites (clk : Clock) (id : Text) (generation : Int) (reply : Reply) : Tx Task := do
  let (_, t) ← read (commitChecks id generation reply)
  let _ ← append (clk.now 0) ⟨t.id, Text.lit "assistant", reply.text, some (turnSource id)⟩
  setFacts clk t.id 3 reply.facts
  updateTask t.id (TaskRow.withSnapshot (encode (object (reply.snapshot.getD t.snapshot))))
  recordProvenance clk id (3 + reply.facts.length) reply.provenance
  pure t

/-- The record of it in the journal (`harness.go:296-304`). -/
def recordCommit (host : Host) (clk : Clock) (id : Text) (reply : Reply) (t : Task) : Tx Turn := do
  updateTurn id
    (TurnRow.commit (encode reply.toJson) (fingerprint host reply.toJson) (clk.now 1))
  insertEvent .harnessCommit t.id (clk.now 2)
  read (turn id)

theorem commitPending_ok_iff {host : Host} {clk : Clock} {id : Text} {generation : Int}
    {reply : Reply} {db db' : Db} {out : Turn} :
    commitPending host clk id generation reply db = .ok (out, db') ↔
      ∃ t mid, commitWrites clk id generation reply db = .ok (t, mid) ∧
        recordCommit host clk id reply t mid = .ok (out, db') := by
  simp only [commitPending, commitWrites, recordCommit, bind_ok, pure_ok]
  constructor
  · rintro ⟨⟨t, k⟩, s, checks, e, s₁, appended, u, s₂, facts, v, s₃, task, w, s₄, edges, record⟩
    exact ⟨k, s₄, ⟨⟨t, k⟩, s, checks, e, s₁, appended, u, s₂, facts, v, s₃, task, w, s₄, edges, rfl,
      rfl⟩, record⟩
  · rintro ⟨k, mid, ⟨⟨t, _⟩, s, checks, e, s₁, appended, u, s₂, facts, v, s₃, task, w, _, edges, rfl,
      rfl⟩, record⟩
    exact ⟨⟨t, k⟩, s, checks, e, s₁, appended, u, s₂, facts, v, s₃, task, w, mid, edges, record⟩

section Record

variable {host : Host} {clk : Clock} {id : Text} {reply : Reply} {k : Task} {db db' : Db}

/-- The tables a reply writes to are the same. -/
structure SameEffect (a b : Db) : Prop where
  tasks : a.tasks = b.tasks
  facts : a.facts = b.facts
  provenance : a.turnProvenance = b.turnProvenance
  messages : a.messages = b.messages

theorem SameEffect.symm {a b : Db} (h : SameEffect a b) : SameEffect b a :=
  ⟨h.tasks.symm, h.facts.symm, h.provenance.symm, h.messages.symm⟩

theorem SameEffect.trans {a b c : Db} (first : SameEffect a b) (second : SameEffect b c) :
    SameEffect a c :=
  ⟨first.tasks.trans second.tasks, first.facts.trans second.facts,
    first.provenance.trans second.provenance, first.messages.trans second.messages⟩

theorem turn?_update {f : TurnRow → TurnRow} (keep : ∀ t, (f t).requestId = t.requestId) :
    (Table.update (·.requestId == id) f db.turns).find? (·.requestId == id) =
      (db.turn? id).map f :=
  Table.find?_update keep db.turns

theorem recordCommit_ok {out : Turn} (h : recordCommit host clk id reply k db = .ok (out, db')) :
    SameEffect db' db ∧ db'.dependencies = db.dependencies ∧ db'.aliases = db.aliases ∧
      ∃ t, db.turn? id = some t ∧ db'.turn? id =
        some (t.commit (encode reply.toJson) (fingerprint host reply.toJson) (clk.now 1)) := by
  simp only [recordCommit, updateTurn, bind_ok, read_ok, modify_ok] at h
  obtain ⟨_, _, rfl, _, _, event, found, rfl⟩ := h
  rw [insertEvent_ok event] at found ⊢
  refine ⟨⟨rfl, rfl, rfl, rfl⟩, rfl, rfl, ?_⟩
  obtain ⟨u, here, _⟩ := turn_ok.mp found
  have moved : some u = (db.turn? id).map _ := here.symm.trans (turn?_update fun _ => rfl)
  obtain ⟨t, live, same⟩ := Option.map_eq_some_iff.mp moved.symm
  exact ⟨t, live, here.trans (congrArg some same.symm)⟩

/-- The record of a commit cannot fail. -/
theorem recordCommit_total (reply : Reply) (k : Task) {t : TurnRow} (found : db.turn? id = some t) :
    ∃ out db', recordCommit host clk id reply k db = .ok (out, db') := by
  have moved : (Table.update (·.requestId == id) (TurnRow.commit (encode reply.toJson)
      (fingerprint host reply.toJson) (clk.now 1)) db.turns).find? (·.requestId == id) = _ :=
    turn?_update fun _ => rfl
  rw [found] at moved
  simp only [recordCommit, updateTurn, insertEvent, bind_ok, modify_ok, read_ok]
  exact ⟨_, _, (), _, rfl, (), _, rfl, turn_ok.mpr ⟨_, moved, rfl⟩, rfl⟩

end Record

/-! ## The writes -/

section Writes

variable {clk : Clock} {id : Text} {db db' : Db}

/-- The message a fact update names is one of the task, and its row comes last. -/
theorem setFact_ok {now : Stamp} {taskId : Int} {f : FactUpdate} {u : Unit}
    (h : setFact now taskId f db = .ok (u, db')) :
    ∃ row, row.columns = f.columns ∧ db' = db.insertFact row := by
  simp only [setFact, bind_ok, ensure_ok, require_ok] at h
  obtain ⟨_, _, ⟨_, rfl⟩, _, _, ⟨_, rfl⟩, inserted⟩ := h
  refine ⟨_, ?_, (insertFact_ok inserted).2⟩
  rfl

theorem setFacts_ok {taskId : Int} : ∀ {n : Nat} {facts : List FactUpdate} {db db' : Db} {u : Unit},
    setFacts clk taskId n facts db = .ok (u, db') →
      ∃ rows, db'.facts = db.facts ++ rows ∧
        rows.map FactRow.columns = facts.map FactUpdate.columns
  | _, [], db, db', u, h => by
      rw [(pure_ok.mp h).2]
      exact ⟨[], (List.append_nil _).symm, rfl⟩
  | n, f :: rest, db, db', u, h => by
      simp only [setFacts, bind_ok] at h
      obtain ⟨_, mid, first, later⟩ := h
      obtain ⟨row, same, rfl⟩ := setFact_ok first
      obtain ⟨rows, added, columns⟩ := setFacts_ok later
      refine ⟨row :: rows, ?_, by rw [List.map_cons, List.map_cons, same, columns]⟩
      rw [added]
      exact List.append_assoc db.facts [row] rows

theorem recordReference_columns {now : Stamp} {ref : ProvenanceRef} {u : Unit}
    (h : recordReference now id ref db = .ok (u, db')) :
    ∃ new : ProvenanceRow, new.requestId = id ∧ new.columns = ref.columns ∧
      db' = { db with turnProvenance := db.turnProvenance ++ [new] } := by
  unfold recordReference at h
  cases known : EdgeKind.ofText? ref.kind with
  | none =>
    rw [known] at h
    exact (fail_ok.mp h).elim
  | some kind =>
    rw [known] at h
    simp only [insertProvenance, bind_ok, require_ok, modify_ok] at h
    obtain ⟨_, _, turn, _, _, ⟨_, rfl⟩, rfl⟩ := h
    obtain ⟨_, rfl⟩ := require_ok.mp turn
    have text : (kind.text == ref.kind) = true :=
      @List.find?_some _ (fun k => EdgeKind.text k == ref.kind) _ _ known
    refine ⟨_, rfl, ?_, rfl⟩
    exact congrArg (ref.evidenceId, ·) (beq_iff_eq.mp text)

theorem recordProvenance_columns : ∀ {n : Nat} {refs : List ProvenanceRef} {db db' : Db} {u : Unit},
    recordProvenance clk id n refs db = .ok (u, db') →
      ∃ rows : List ProvenanceRow, (∀ p ∈ rows, p.requestId = id) ∧
        rows.map ProvenanceRow.columns = refs.map ProvenanceRef.columns ∧
        db' = { db with turnProvenance := db.turnProvenance ++ rows }
  | _, [], db, db', u, h => by
      rw [(pure_ok.mp h).2]
      exact ⟨[], by simp, rfl, by rw [List.append_nil]⟩
  | n, ref :: rest, db, db', u, h => by
      simp only [recordProvenance, bind_ok] at h
      obtain ⟨_, mid, first, later⟩ := h
      obtain ⟨new, own, same, rfl⟩ := recordReference_columns first
      obtain ⟨rows, owns, columns, rfl⟩ := recordProvenance_columns later
      refine ⟨new :: rows, ?_, by rw [List.map_cons, List.map_cons, same, columns], by simp⟩
      intro p member
      rcases List.mem_cons.mp member with rfl | member
      · exact own
      · exact owns p member

/-- **What a reply writes.** -/
theorem commitWrites_ok {generation : Int} {reply : Reply} {k : Task}
    (h : commitWrites clk id generation reply db = .ok (k, db')) :
    ∃ t row, commitChecks id generation reply db = .ok (t, k) ∧ db.turn? id = some t ∧
      db.task? t.taskId = some row ∧
      db'.turns = db.turns ∧ Applied clk id t row reply db db' := by
  simp only [commitWrites, bind_ok, read_ok, pure_ok] at h
  obtain ⟨⟨t, k⟩, start, ⟨checks, rfl⟩, ev, _, appended, _, facts, factual, _, _, update, _, _,
    edges, rfl, rfl⟩ := h
  obtain ⟨live, _, _, _, task, _⟩ := commitChecks_ok_iff.mp checks
  obtain ⟨row, found, tid, _, _, snapshot⟩ := task_ok task
  obtain ⟨role, roleText, _, _, _, rfl⟩ := append_ok appended
  have assistant : role = .assistant := by
    have : Role.ofText? (Text.lit "assistant") = some Role.assistant := by decide
    rw [this] at roleText
    exact (Option.some.inj roleText).symm
  subst assistant
  dsimp only at factual update edges
  rw [tid] at factual update
  have evolves := setFacts_evolves clk _ _ _ _ _ _ factual
  obtain ⟨tasks, messages, dependencies, aliases⟩ := evolves_facts evolves
  have here : facts.task? t.taskId = some row := by
    unfold Db.task?
    rw [tasks]
    exact found
  obtain ⟨rows, added, columns⟩ := setFacts_ok factual
  obtain ⟨new, own, edgeColumns, rfl⟩ := recordProvenance_columns edges
  rcases updateTask_ok update with ⟨old, same, rfl⟩ | ⟨missing, _⟩
  · rw [here] at same
    cases same
    have journal : facts.toJournal = start.toJournal := evolves.journal
    refine ⟨t, row, checks, live, found, ?_, messages, ⟨rows, added, columns⟩, ?_, ⟨new, ?_, own,
      edgeColumns⟩, dependencies, aliases⟩
    · show facts.turns = start.turns
      rw [journal]
    · rw [snapshot]
      show Table.replace _ _ facts.tasks = _
      rw [tasks]
      rfl
    · show facts.turnProvenance ++ new = _
      rw [show facts.turnProvenance = start.turnProvenance from congrArg Journal.turnProvenance journal]
  · rw [here] at missing
    cases missing

end Writes

end Cmpath
