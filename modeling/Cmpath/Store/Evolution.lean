import Cmpath.Store.Statement

/-!
# What the statements do to the base tables

Every statement on the tables of `base.sql` is a sequence of row writes that respect the
constraints: `Evolves allowed` is that closure for the kinds of row a writer uses. A fact about
what a writer can do to the tables is proved for one row write (`Evolves.rel`, `Evolves.inv`) and
then holds of the writer.
-/

namespace Cmpath
open Lib Lib.Txn

/-- One write to a base table: a row inserted or replaced, or the rows of a `DELETE`. -/
inductive Write where
  | insertTask (new : TaskRow)
  | replaceTask (old new : TaskRow)
  | deleteTasks (p : TaskRow → Bool)
  | insertMessage (new : MessageRow)
  | replaceMessage (old new : MessageRow)
  | deleteMessages (p : MessageRow → Bool)
  | insertFact (new : FactRow)
  | replaceFact (old new : FactRow)
  | deleteFacts (p : FactRow → Bool)
  | insertDependency (new : DependencyRow)
  | replaceDependency (old new : DependencyRow)
  | deleteDependencies (p : DependencyRow → Bool)
  | insertAlias (new : AliasRow)
  | replaceAlias (old new : AliasRow)
  | deleteAliases (p : AliasRow → Bool)
  | event (kind : EventKind) (taskId : Int) (now : Stamp)
  | runtime (state : RuntimeState)

namespace Write

/-- The tables after the write. -/
def apply : Write → Db → Db
  | .insertTask new => Db.insertTask new
  | .replaceTask old new => Db.replaceTask old new
  | .deleteTasks p => Db.deleteTasks p
  | .insertMessage new => Db.insertMessage new
  | .replaceMessage old new => Db.replaceMessage old new
  | .deleteMessages p => Db.deleteMessages p
  | .insertFact new => Db.insertFact new
  | .replaceFact old new => Db.replaceFact old new
  | .deleteFacts p => Db.deleteFacts p
  | .insertDependency new => Db.insertDependency new
  | .replaceDependency old new => Db.replaceDependency old new
  | .deleteDependencies p => Db.deleteDependencies p
  | .insertAlias new => Db.insertAlias new
  | .replaceAlias old new => Db.replaceAlias old new
  | .deleteAliases p => Db.deleteAliases p
  | .event kind taskId now => fun db =>
      { db with
        events := db.events ++ [⟨db.sequence.events + 1, kind, some taskId, now⟩]
        sequence := { db.sequence with events := db.sequence.events + 1 } }
  | .runtime state => fun db => { db with runtimeState := state }

/-- The constraints of `base.sql` the later proofs need of the rows written. -/
def Legal : Write → Db → Prop
  | .insertTask new, db => new.id = db.sequence.tasks + 1
  | .replaceTask old new, db => db.task? old.id = some old ∧ new.id = old.id
  | .deleteTasks p, db =>
      ∀ r ∈ db.tasks, p r = true →
        (∀ d ∈ db.dependencies, d.child ≠ r.id ∧ d.parent ≠ r.id) ∧ ∀ t ∈ db.turns, t.taskId ≠ r.id
  | .insertMessage new, db =>
      new.id = db.sequence.messages + 1 ∧ (db.task? new.taskId).isSome
  | .replaceMessage old new, db =>
      db.message? old.id = some old ∧ new.id = old.id ∧ (db.task? new.taskId).isSome
  | .insertFact new, db => (db.task? new.taskId).isSome
  | .replaceFact old new, db =>
      db.fact? old.id = some old ∧ new.id = old.id ∧ (db.task? new.taskId).isSome
  | .insertDependency new, db => (db.task? new.child).isSome ∧ (db.task? new.parent).isSome
  | .replaceDependency old new, db =>
      old ∈ db.dependencies ∧ (db.task? new.child).isSome ∧ (db.task? new.parent).isSome
  | .insertAlias new, db => (db.task? new.taskId).isSome
  | .replaceAlias old new, db => old ∈ db.aliases ∧ (db.task? new.taskId).isSome
  | _, _ => True

/-- The firings of the epoch triggers a write causes. -/
def touches (db : Db) : Write → List Touch
  | .insertTask new => [⟨none, some new.id⟩]
  | .replaceTask old new => [⟨some old.id, some new.id⟩]
  | .deleteTasks p => (db.tasks.filter p).map fun r => ⟨some r.id, none⟩
  | .insertMessage new => [⟨none, some new.taskId⟩]
  | .replaceMessage old new => [⟨some old.taskId, some new.taskId⟩]
  | .deleteMessages p => (db.messages.filter p).map fun r => ⟨some r.taskId, none⟩
  | .insertFact new => [⟨none, some new.taskId⟩]
  | .replaceFact old new => [⟨some old.taskId, some new.taskId⟩]
  | .deleteFacts p => (db.facts.filter p).map fun r => ⟨some r.taskId, none⟩
  | .insertDependency new => [⟨none, some new.child⟩]
  | .replaceDependency old new => [⟨some old.child, some new.child⟩]
  | .deleteDependencies p => (db.dependencies.filter p).map fun r => ⟨some r.child, none⟩
  | .insertAlias new => [⟨none, some new.taskId⟩]
  | .replaceAlias old new => [⟨some old.taskId, some new.taskId⟩]
  | .deleteAliases p => (db.aliases.filter p).map fun r => ⟨some r.taskId, none⟩
  | .event _ _ _ => []
  | .runtime _ => []

theorem touchAll_tables (ts : List Touch) (db : Db) :
    (db.touchAll ts).toTables = db.toTables ∧ (db.touchAll ts).toJournal = db.toJournal := by
  induction ts with
  | nil => exact ⟨rfl, rfl⟩
  | cons t ts ih => exact ih

@[simp] theorem touchAll_tasks (ts : List Touch) (db : Db) :
    (db.touchAll ts).tasks = db.tasks :=
  congrArg Tables.tasks (touchAll_tables ts db).1

@[simp] theorem touchAll_dependencies (ts : List Touch) (db : Db) :
    (db.touchAll ts).dependencies = db.dependencies :=
  congrArg Tables.dependencies (touchAll_tables ts db).1

@[simp] theorem touchAll_aliases (ts : List Touch) (db : Db) :
    (db.touchAll ts).aliases = db.aliases :=
  congrArg Tables.aliases (touchAll_tables ts db).1

@[simp] theorem touchAll_messages (ts : List Touch) (db : Db) :
    (db.touchAll ts).messages = db.messages :=
  congrArg Tables.messages (touchAll_tables ts db).1

@[simp] theorem touchAll_facts (ts : List Touch) (db : Db) :
    (db.touchAll ts).facts = db.facts :=
  congrArg Tables.facts (touchAll_tables ts db).1

@[simp] theorem touchAll_sequence (ts : List Touch) (db : Db) :
    (db.touchAll ts).sequence = db.sequence :=
  congrArg Tables.sequence (touchAll_tables ts db).1

@[simp] theorem apply_journal (w : Write) (db : Db) : (w.apply db).toJournal = db.toJournal := by
  cases w with
  | deleteTasks | deleteMessages | deleteFacts | deleteDependencies | deleteAliases =>
    exact (touchAll_tables _ _).2
  | _ => rfl

/-- What the engine writes to the base tables outside a turn. -/
def Additive : Write → Prop
  | .insertTask _ | .insertMessage _ | .insertFact _ | .insertDependency _ | .insertAlias _
  | .event _ _ _ | .runtime _ => True
  | _ => False

/-- Such a write of no message. -/
def Silent : Write → Prop
  | .insertMessage _ => False
  | w => w.Additive

theorem Silent.additive {w : Write} (h : w.Silent) : w.Additive := by
  cases w <;> first | exact h | exact h.elim

/-- What a new task is made of: no message and no fact. -/
def Founding : Write → Prop
  | .insertFact _ => False
  | w => w.Silent

theorem Founding.silent {w : Write} (h : w.Founding) : w.Silent := by
  cases w <;> first | exact h | exact h.elim

/-- A write that takes no fact, message or task away and adds no fact. -/
def Sparing : Write → Prop
  | .insertFact _ | .replaceFact _ _ | .deleteFacts _ | .replaceMessage _ _ | .deleteMessages _
  | .deleteTasks _ => False
  | _ => True

theorem Founding.sparing {w : Write} (h : w.Founding) : w.Sparing := by
  cases w <;> first | exact h.elim | trivial

/-- What the engine writes to the base tables at all: rows are added, and a task row takes a new
    status, snapshot or revision. -/
def Engine : Write → Prop
  | .replaceTask _ _ => True
  | w => w.Additive

theorem Additive.engine {w : Write} (h : w.Additive) : w.Engine := by
  cases w <;> first | exact h | trivial

end Write

/-- The closure of the row writes of the kinds `allowed`. -/
inductive Evolves (allowed : Write → Prop) : Db → Db → Prop where
  | refl (db : Db) : Evolves allowed db db
  | step {a b : Db} (first : Evolves allowed a b) (w : Write) (kind : allowed w)
      (legal : w.Legal b) : Evolves allowed a (w.apply b)

namespace Evolves

variable {allowed other : Write → Prop}

theorem trans {a b c : Db} (first : Evolves allowed a b) (second : Evolves allowed b c) :
    Evolves allowed a c := by
  induction second with
  | refl => exact first
  | step _ w kind legal ih => exact ih.step w kind legal

/-- `refl` and `trans` as the frame rules of `Keeps` take them. -/
theorem refl_all : ∀ db, Evolves allowed db db := .refl

theorem trans_all : ∀ a b c, Evolves allowed a b → Evolves allowed b c → Evolves allowed a c :=
  fun _ _ _ => trans

theorem single {db : Db} (w : Write) (kind : allowed w) (legal : w.Legal db) :
    Evolves allowed db (w.apply db) :=
  (Evolves.refl db).step w kind legal

theorem mono {a b : Db} (more : ∀ w, allowed w → other w) (h : Evolves allowed a b) :
    Evolves other a b := by
  induction h with
  | refl => exact .refl _
  | step _ w kind legal ih => exact ih.step w (more w kind) legal

/-- A property each write preserves holds after all of them. -/
theorem inv {P : Db → Prop} (write : ∀ w db, allowed w → w.Legal db → P db → P (w.apply db))
    {a b : Db} (h : Evolves allowed a b) (start : P a) : P b := by
  induction h with
  | refl => exact start
  | step _ w kind legal ih => exact write w _ kind legal ih

/-- A reflexive and transitive relation each write respects holds across all of them. -/
theorem rel {R : Db → Db → Prop} (refl : ∀ db, R db db)
    (trans : ∀ a b c, R a b → R b c → R a c)
    (write : ∀ w db, allowed w → w.Legal db → R db (w.apply db)) {a b : Db}
    (h : Evolves allowed a b) : R a b := by
  induction h with
  | refl => exact refl _
  | step _ w kind legal ih => exact trans _ _ _ ih (write w _ kind legal)

/-- The journal belongs to the engine: base writes leave it alone. -/
theorem journal {a b : Db} (h : Evolves allowed a b) : b.toJournal = a.toJournal :=
  h.rel (R := fun a b => b.toJournal = a.toJournal) (fun _ => rfl)
    (fun _ _ _ first second => second.trans first) fun w db _ _ => w.apply_journal db

theorem silent_messages {a b : Db} (h : Evolves Write.Silent a b) : b.messages = a.messages := by
  refine h.rel (R := fun a b => b.messages = a.messages) (fun _ => rfl)
    (fun _ _ _ first second => second.trans first) fun w db silent _ => ?_
  cases w <;> first | rfl | exact silent.elim

end Evolves

/-! ## The base statements as row writes -/

theorem insertTask_ok {title : Text} {snapshot : Json} {now : Stamp} {db db' : Db} {id : Int}
    (h : insertTask title snapshot now db = .ok (id, db')) :
    id = db.sequence.tasks + 1 ∧
      db' = (Write.insertTask ⟨id, title, .opened, snapshot, 1, now⟩).apply db := by
  simp only [insertTask, bind_ok, read_ok, modify_ok, pure_ok, Except.ok.injEq] at h
  obtain ⟨_, _, ⟨rfl, rfl⟩, _, _, rfl, rfl, rfl⟩ := h
  exact ⟨rfl, rfl⟩

theorem requireTask_ok {id : Int} {db db' : Db} {u : Unit}
    (h : requireTask id db = .ok (u, db')) : (db.task? id).isSome ∧ db' = db :=
  require_ok.mp h

theorem insertMessage_ok {taskId : Int} {role : Role} {content : Text} {source : Json}
    {now : Stamp} {db db' : Db} {id : Int}
    (h : insertMessage taskId role content source now db = .ok (id, db')) :
    id = db.sequence.messages + 1 ∧ (db.task? taskId).isSome ∧
      db' = (Write.insertMessage ⟨id, taskId, role, content, source, now⟩).apply db := by
  simp only [insertMessage, bind_ok, read_ok, modify_ok, pure_ok, Except.ok.injEq] at h
  obtain ⟨_, _, task, _, _, ⟨rfl, rfl⟩, _, _, rfl, rfl, rfl⟩ := h
  obtain ⟨exists_, rfl⟩ := requireTask_ok task
  exact ⟨rfl, exists_, rfl⟩

theorem insertFact_ok {taskId : Int} {key : Text} {value : Json} {evidenceId : Int}
    {retracted : Bool} {now : Stamp} {db db' : Db} {u : Unit}
    (h : insertFact taskId key value evidenceId retracted now db = .ok (u, db')) :
    (db.task? taskId).isSome ∧ db' = (Write.insertFact ⟨db.sequence.facts + 1, taskId, key,
      db.factRevision taskId key + 1, value, evidenceId, retracted, now⟩).apply db := by
  simp only [insertFact, bind_ok, require_ok, modify_ok] at h
  obtain ⟨_, _, task, _, _, ⟨_, rfl⟩, rfl⟩ := h
  obtain ⟨exists_, rfl⟩ := requireTask_ok task
  exact ⟨exists_, rfl⟩

theorem insertEvent_ok {kind : EventKind} {taskId : Int} {now : Stamp} {db db' : Db} {u : Unit}
    (h : insertEvent kind taskId now db = .ok (u, db')) :
    db' = (Write.event kind taskId now).apply db :=
  modify_ok.mp h

theorem setActiveTask_ok {task : Option Int} {db db' : Db} {u : Unit}
    (h : setActiveTask task db = .ok (u, db')) :
    db' = (Write.runtime ⟨task, db.runtimeState.version + 1⟩).apply db :=
  modify_ok.mp h

theorem task?_id {db : Db} {id : Int} {row : TaskRow} (h : db.task? id = some row) :
    row.id = id := by
  have := List.find?_some h
  simpa using this

theorem updateTask_ok {id : Int} {f : TaskRow → TaskRow} {db db' : Db} {u : Unit}
    (h : updateTask id f db = .ok (u, db')) :
    (∃ old, db.task? id = some old ∧ db' = (Write.replaceTask old (f old)).apply db) ∨
      (db.task? id = none ∧ db' = db) := by
  have same := modify_ok.mp h
  cases found : db.task? id with
  | none => exact .inr ⟨rfl, by rw [same, found]⟩
  | some old => exact .inl ⟨old, rfl, by rw [same, found]; rfl⟩

section Keeps

variable {allowed : Write → Prop}

theorem keeps_insertTask (kind : ∀ r, allowed (.insertTask r)) (title : Text) (snapshot : Json)
    (now : Stamp) : Keeps (Evolves allowed) (insertTask title snapshot now) := by
  intro db id db' h
  obtain ⟨rfl, rfl⟩ := insertTask_ok h
  exact .single _ (kind _) rfl

theorem keeps_insertMessage (kind : ∀ r, allowed (.insertMessage r)) (taskId : Int) (role : Role)
    (content : Text) (source : Json) (now : Stamp) :
    Keeps (Evolves allowed) (insertMessage taskId role content source now) := by
  intro db id db' h
  obtain ⟨rfl, task, rfl⟩ := insertMessage_ok h
  exact .single _ (kind _) ⟨rfl, task⟩

theorem keeps_insertFact (kind : ∀ r, allowed (.insertFact r)) (taskId : Int) (key : Text)
    (value : Json) (evidenceId : Int) (retracted : Bool) (now : Stamp) :
    Keeps (Evolves allowed) (insertFact taskId key value evidenceId retracted now) := by
  intro db u db' h
  obtain ⟨task, rfl⟩ := insertFact_ok h
  exact .single _ (kind _) task

theorem keeps_insertEvent (kind : ∀ k t n, allowed (.event k t n)) (event : EventKind)
    (taskId : Int) (now : Stamp) : Keeps (Evolves allowed) (insertEvent event taskId now) := by
  intro db u db' h
  rw [insertEvent_ok h]
  exact .single _ (kind _ _ _) trivial

theorem keeps_setActiveTask (kind : ∀ s, allowed (.runtime s)) (task : Option Int) :
    Keeps (Evolves allowed) (setActiveTask task) := by
  intro db u db' h
  rw [setActiveTask_ok h]
  exact .single _ (kind _) trivial

theorem keeps_requireTask (id : Int) : Keeps (Evolves allowed) (requireTask id) :=
  .require Evolves.refl_all _ _

theorem keeps_insertDependencyOrIgnore {child parent : Int}
    (kind : allowed (.insertDependency ⟨child, parent⟩)) :
    Keeps (Evolves allowed) (insertDependencyOrIgnore child parent) := by
  intro db u db' h
  simp only [insertDependencyOrIgnore, bind_ok, modify_ok] at h
  obtain ⟨_, _, first, _, _, second, rfl⟩ := h
  obtain ⟨childRow, rfl⟩ := requireTask_ok first
  obtain ⟨parentRow, rfl⟩ := requireTask_ok second
  split
  · exact .refl _
  · exact .single (.insertDependency ⟨child, parent⟩) kind ⟨childRow, parentRow⟩

theorem keeps_insertAliasOrIgnore (kind : ∀ r, allowed (.insertAlias r)) (taskId : Int)
    (aliasText : Text) : Keeps (Evolves allowed) (insertAliasOrIgnore taskId aliasText) := by
  intro db u db' h
  simp only [insertAliasOrIgnore, bind_ok, modify_ok] at h
  obtain ⟨_, _, first, rfl⟩ := h
  obtain ⟨task, rfl⟩ := requireTask_ok first
  split
  · exact .refl _
  · exact .single (.insertAlias ⟨taskId, aliasText⟩) (kind _) task

theorem keeps_updateTask (kind : ∀ o n, n.id = o.id → allowed (.replaceTask o n)) (id : Int)
    {f : TaskRow → TaskRow} (keepId : ∀ r, (f r).id = r.id) :
    Keeps (Evolves allowed) (updateTask id f) := by
  intro db u db' h
  rcases updateTask_ok h with ⟨old, found, rfl⟩ | ⟨_, rfl⟩
  · have same := task?_id found
    exact .single _ (kind _ _ (keepId old)) ⟨same ▸ found, keepId old⟩
  · exact .refl _

theorem keeps_modify (w : Db → Write) (kind : ∀ db, allowed (w db))
    (legal : ∀ db, (w db).Legal db) :
    Keeps (ε := Failure) (Evolves allowed) (modify fun db => (w db).apply db) :=
  .modify fun db => .single (w db) (kind db) (legal db)

end Keeps

/-- Every kind of row write. -/
def Write.Any (_ : Write) : Prop := True

/-- A write that neither adds a dependency nor changes one. -/
def Write.Edgeless : Write → Prop
  | .insertDependency _ | .replaceDependency _ _ => False
  | _ => True

theorem Evolves.any {allowed : Write → Prop} {a b : Db} (h : Evolves allowed a b) :
    Evolves Write.Any a b :=
  h.mono fun _ _ => trivial

theorem keeps_deleteMessages (p : MessageRow → Bool) :
    Keeps (Evolves Write.Edgeless) (deleteMessages p) := by
  refine .bind Evolves.trans_all (.require Evolves.refl_all _ _) fun _ => ?_
  refine .bind Evolves.trans_all (keeps_modify (fun db => .deleteFacts fun f =>
    (db.messages.filter p).any (·.id == f.evidenceId)) (fun _ => trivial) fun _ => trivial) fun _ => ?_
  exact keeps_modify (fun _ => .deleteMessages p) (fun _ => trivial) fun _ => trivial

theorem deleteMessages_dependencies {p : MessageRow → Bool} {db db' : Db} {u : Unit}
    (h : deleteMessages p db = .ok (u, db')) :
    db'.tasks = db.tasks ∧ db'.dependencies = db.dependencies := by
  simp only [deleteMessages, requireUncited, bind_ok, require_ok, modify_ok] at h
  obtain ⟨_, _, ⟨_, rfl⟩, _, _, rfl, rfl⟩ := h
  simp [Db.deleteMessages, Db.deleteFacts]

/-- A task goes only when no turn belongs to it, and no other task goes with it. -/
theorem deleteTask_ok {id : Int} {db db' : Db} {u : Unit} (h : deleteTask id db = .ok (u, db')) :
    (∀ t ∈ db.turns, t.taskId ≠ id) ∧ db'.tasks = Table.delete (·.id == id) db.tasks := by
  simp only [deleteTask, bind_ok, require_ok, modify_ok] at h
  obtain ⟨_, a, ⟨free, rfl⟩, _, b, rfl, _, c, rfl, _, d, rfl, _, e, messages, _, f, rfl, rfl⟩ := h
  have tasks : e.tasks = a.tasks := by
    rw [(deleteMessages_dependencies messages).1]
    simp [Db.deleteFacts, Db.deleteAliases, Db.deleteDependencies]
  simp only [Bool.and_eq_true, Bool.not_eq_true', List.any_eq_false, beq_iff_eq] at free
  refine ⟨free.2, ?_⟩
  split <;> simp [Db.deleteTasks, tasks]

/-- A deleted task has no dependency left on either side and no turn when its row goes. -/
theorem keeps_deleteTask (id : Int) : Keeps (Evolves Write.Edgeless) (deleteTask id) := by
  intro db u db' h
  simp only [deleteTask, bind_ok, require_ok, modify_ok] at h
  obtain ⟨_, a, ⟨free, rfl⟩, _, b, rfl, _, c, rfl, _, d, rfl, _, e, messages, _, f, rfl, rfl⟩ := h
  have one : Evolves Write.Edgeless a (a.deleteDependencies (·.child == id)) :=
    .single (.deleteDependencies (·.child == id)) trivial trivial
  have two := one.step (.deleteAliases (·.taskId == id)) trivial trivial
  have three := two.step (.deleteFacts (·.taskId == id)) trivial trivial
  have four := three.trans (keeps_deleteMessages _ _ _ _ messages)
  have edges : e.dependencies = Table.delete (·.child == id) a.dependencies := by
    rw [(deleteMessages_dependencies messages).2]
    simp [Db.deleteFacts, Db.deleteAliases, Db.deleteDependencies]
  have five := four.step (.deleteTasks (·.id == id)) trivial (by
    intro r _ same
    simp only [Bool.and_eq_true, Bool.not_eq_true', List.any_eq_false] at free
    rw [beq_iff_eq] at same
    subst same
    refine ⟨fun d member => ?_, fun t member => ?_⟩
    · rw [edges, Table.mem_delete] at member
      exact ⟨by simpa using member.2, by simpa using free.1 d member.1⟩
    · rw [congrArg Journal.turns four.journal] at member
      simpa using free.2 t member)
  split
  · exact five.step (.runtime _) trivial trivial
  · exact five

end Cmpath
