import Cmpath.Store.Evolution

/-!
# Direct row writes

What another writer of the same file may do to the tables of `base.sql`: single `INSERT`, `UPDATE`
and `DELETE` statements under the constraints of the schema. Identifiers of tasks, messages and
facts are assigned by SQLite and never updated.
-/

namespace Cmpath
open Lib Lib.Txn

/-- One statement. A row that is given with an update is the row it becomes. -/
inductive Direct where
  | insertTask (title : Text) (status : TaskStatus) (snapshot : Json) (revision : Int) (now : Stamp)
  | updateTask (id : Int) (title : Text) (status : TaskStatus) (snapshot : Json) (revision : Int)
  | deleteTask (id : Int)
  | insertMessage (taskId : Int) (role : Role) (content : Text) (source : Json) (now : Stamp)
  | updateMessage (id taskId : Int) (role : Role) (content : Text) (source : Json)
  | deleteMessage (id : Int)
  | insertFact (taskId : Int) (key : Text) (revision : Int) (value : Json) (evidenceId : Int)
      (retracted : Bool) (now : Stamp)
  | updateFact (id taskId : Int) (key : Text) (revision : Int) (value : Json) (evidenceId : Int)
      (retracted : Bool)
  | deleteFact (id : Int)
  | insertDependency (child parent : Int)
  | updateDependency (old new : DependencyRow)
  | deleteDependency (row : DependencyRow)
  | insertAlias (taskId : Int) (aliasText : Text)
  | updateAlias (old new : AliasRow)
  | deleteAlias (row : AliasRow)

/-- `REFERENCES messages(id)`. -/
def requireMessage (id : Int) : Tx Unit :=
  require (fun db => (db.message? id).isSome) (.constraint "FOREIGN KEY constraint failed")

/-- `PRIMARY KEY(child,parent)`, `CHECK(child != parent)` and the references of a dependency. -/
def requireDependency (new : DependencyRow) : Tx Unit := do
  ensure (new.child != new.parent) (.constraint "CHECK constraint failed: child != parent")
  require (fun db => !db.dependencies.contains new)
    (.constraint "UNIQUE constraint failed: dependencies.child, dependencies.parent")
  requireTask new.child
  requireTask new.parent

/-- `PRIMARY KEY(task_id,alias)` and the reference of an alias. -/
def requireAlias (new : AliasRow) : Tx Unit := do
  require (fun db => !db.aliases.contains new)
    (.constraint "UNIQUE constraint failed: aliases.task_id, aliases.alias")
  requireTask new.taskId

/-- `UNIQUE(task_id,key,revision)` against the rows other than `id`, and the references of a
    fact. -/
def requireFact (id taskId : Int) (key : Text) (revision evidenceId : Int) : Tx Unit := do
  require (fun db => !db.facts.any fun f =>
      f.id != id && f.taskId == taskId && f.key == key && f.revision == revision)
    (.constraint "UNIQUE constraint failed: facts.task_id, facts.key, facts.revision")
  requireTask taskId
  requireMessage evidenceId

/-- Run the statement. -/
def Direct.exec : Direct → Tx Unit
  | .insertTask title status snapshot revision now =>
      modify fun db =>
        db.insertTask ⟨db.sequence.tasks + 1, title, status, snapshot, revision, now⟩
  | .updateTask id title status snapshot revision =>
      Cmpath.updateTask id fun r =>
        { r with title := title, status := status, snapshot := snapshot, revision := revision }
  | .deleteTask id => Cmpath.deleteTask id
  | .insertMessage taskId role content source now => do
      let _ ← Cmpath.insertMessage taskId role content source now
      pure ()
  | .updateMessage id taskId role content source => do
      requireTask taskId
      modify fun db =>
        match db.message? id with
        | none => db
        | some old => db.replaceMessage old
            { old with taskId := taskId, role := role, content := content, source := source }
  | .deleteMessage id => deleteMessages (·.id == id)
  | .insertFact taskId key revision value evidenceId retracted now => do
      requireFact 0 taskId key revision evidenceId
      modify fun db =>
        db.insertFact ⟨db.sequence.facts + 1, taskId, key, revision, value, evidenceId, retracted,
          now⟩
  | .updateFact id taskId key revision value evidenceId retracted => do
      requireFact id taskId key revision evidenceId
      modify fun db =>
        match db.fact? id with
        | none => db
        | some old => db.replaceFact old
            { old with
              taskId := taskId, key := key, revision := revision, value := value
              evidenceId := evidenceId, retracted := retracted }
  | .deleteFact id => modify (Db.deleteFacts (·.id == id))
  | .insertDependency child parent => do
      requireDependency ⟨child, parent⟩
      modify (Db.insertDependency ⟨child, parent⟩)
  | .updateDependency old new => do
      requireDependency new
      modify fun db => if db.dependencies.contains old then db.replaceDependency old new else db
  | .deleteDependency row => modify (Db.deleteDependencies (· == row))
  | .insertAlias taskId aliasText => do
      requireAlias ⟨taskId, aliasText⟩
      modify (Db.insertAlias ⟨taskId, aliasText⟩)
  | .updateAlias old new => do
      requireAlias new
      modify fun db => if db.aliases.contains old then db.replaceAlias old new else db
  | .deleteAlias row => modify (Db.deleteAliases (· == row))

/-! ## Direct writes as row writes -/

theorem message?_id {db : Db} {id : Int} {row : MessageRow} (h : db.message? id = some row) :
    row.id = id := by
  have := List.find?_some h
  simpa using this

theorem fact?_id {db : Db} {id : Int} {row : FactRow} (h : db.fact? id = some row) :
    row.id = id := by
  have := List.find?_some h
  simpa using this

theorem requireDependency_ok {new : DependencyRow} {db db' : Db} {u : Unit}
    (h : requireDependency new db = .ok (u, db')) :
    (db.task? new.child).isSome ∧ (db.task? new.parent).isSome ∧ db' = db := by
  simp only [requireDependency, bind_ok, ensure_ok, require_ok] at h
  obtain ⟨_, _, ⟨_, rfl⟩, _, _, ⟨_, rfl⟩, _, _, child, parent⟩ := h
  obtain ⟨childRow, rfl⟩ := requireTask_ok child
  obtain ⟨parentRow, rfl⟩ := requireTask_ok parent
  exact ⟨childRow, parentRow, rfl⟩

theorem requireAlias_ok {new : AliasRow} {db db' : Db} {u : Unit}
    (h : requireAlias new db = .ok (u, db')) : (db.task? new.taskId).isSome ∧ db' = db := by
  simp only [requireAlias, bind_ok, require_ok] at h
  obtain ⟨_, _, ⟨_, rfl⟩, task⟩ := h
  exact requireTask_ok task

theorem requireFact_ok {id taskId : Int} {key : Text} {revision evidenceId : Int} {db db' : Db}
    {u : Unit} (h : requireFact id taskId key revision evidenceId db = .ok (u, db')) :
    (db.task? taskId).isSome ∧ db' = db := by
  simp only [requireFact, requireMessage, bind_ok, require_ok] at h
  obtain ⟨_, _, ⟨_, rfl⟩, _, _, task, _, rfl⟩ := h
  exact requireTask_ok task

theorem keeps_directDependency {allowed : Write → Prop} {child parent : Int}
    (kind : allowed (.insertDependency ⟨child, parent⟩)) :
    Keeps (Evolves allowed) (Direct.exec (.insertDependency child parent)) := by
  intro db u db' h
  simp only [Direct.exec, bind_ok, modify_ok] at h
  obtain ⟨_, _, checks, rfl⟩ := h
  obtain ⟨childRow, parentRow, rfl⟩ := requireDependency_ok checks
  exact .single (.insertDependency _) kind ⟨childRow, parentRow⟩

theorem keeps_directAlias {allowed : Write → Prop} (kind : ∀ r, allowed (.insertAlias r))
    (taskId : Int) (aliasText : Text) :
    Keeps (Evolves allowed) (Direct.exec (.insertAlias taskId aliasText)) := by
  intro db u db' h
  simp only [Direct.exec, bind_ok, modify_ok] at h
  obtain ⟨_, _, checks, rfl⟩ := h
  obtain ⟨row, rfl⟩ := requireAlias_ok checks
  exact .single (.insertAlias _) (kind _) row

theorem keeps_direct (d : Direct) : Keeps (Evolves Write.Any) d.exec := by
  have refl := @Evolves.refl_all Write.Any
  have trans := @Evolves.trans_all Write.Any
  have any : ∀ w, Write.Any w := fun _ => trivial
  intro db u db' h
  cases d with
  | insertTask title status snapshot revision now =>
    rw [modify_ok.mp h]
    exact .single (.insertTask _) (any _) rfl
  | updateTask id title status snapshot revision =>
    refine keeps_updateTask (fun _ _ _ => any _) id ?_ db u db' h
    exact fun _ => rfl
  | deleteTask id => exact (keeps_deleteTask id db u db' h).any
  | insertMessage taskId role content source now =>
    exact Keeps.bind trans (keeps_insertMessage (fun _ => any _) taskId role content source now)
      (fun _ => .pure refl _) db u db' h
  | updateMessage id taskId role content source =>
    simp only [Direct.exec, bind_ok, modify_ok] at h
    obtain ⟨_, _, task, rfl⟩ := h
    obtain ⟨row, rfl⟩ := requireTask_ok task
    split
    · exact refl _
    · rename_i old found
      have same := message?_id found
      exact .single (.replaceMessage old _) (any _) ⟨same ▸ found, rfl, row⟩
  | deleteMessage id => exact (keeps_deleteMessages _ db u db' h).any
  | insertFact taskId key revision value evidenceId retracted now =>
    simp only [Direct.exec, bind_ok, modify_ok] at h
    obtain ⟨_, _, checks, rfl⟩ := h
    obtain ⟨row, rfl⟩ := requireFact_ok checks
    exact .single (.insertFact _) (any _) row
  | updateFact id taskId key revision value evidenceId retracted =>
    simp only [Direct.exec, bind_ok, modify_ok] at h
    obtain ⟨_, _, checks, rfl⟩ := h
    obtain ⟨row, rfl⟩ := requireFact_ok checks
    split
    · exact refl _
    · rename_i old found
      have same := fact?_id found
      exact .single (.replaceFact old _) (any _) ⟨same ▸ found, rfl, row⟩
  | deleteFact id =>
    rw [modify_ok.mp h]
    exact .single (.deleteFacts _) (any _) trivial
  | insertDependency child parent =>
    exact keeps_directDependency (any _) db u db' h
  | updateDependency old new =>
    simp only [Direct.exec, bind_ok, modify_ok] at h
    obtain ⟨_, _, checks, rfl⟩ := h
    obtain ⟨childRow, parentRow, rfl⟩ := requireDependency_ok checks
    split
    · rename_i member
      exact .single (.replaceDependency old new) (any _)
        ⟨by simpa using member, childRow, parentRow⟩
    · exact refl _
  | deleteDependency row =>
    rw [modify_ok.mp h]
    exact .single (.deleteDependencies _) (any _) trivial
  | insertAlias taskId aliasText =>
    exact keeps_directAlias (fun _ => any _) taskId aliasText db u db' h
  | updateAlias old new =>
    simp only [Direct.exec, bind_ok, modify_ok] at h
    obtain ⟨_, _, checks, rfl⟩ := h
    obtain ⟨row, rfl⟩ := requireAlias_ok checks
    split
    · rename_i member
      exact .single (.replaceAlias old new) (any _) ⟨by simpa using member, row⟩
    · exact refl _
  | deleteAlias row =>
    rw [modify_ok.mp h]
    exact .single (.deleteAliases _) (any _) trivial

end Cmpath
