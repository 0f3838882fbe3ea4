import Cmpath.Journal.Revision
import Cmpath.Legacy.Checkpoint

/-!
# What the migration writes

The methods the migration calls, each with the rows it writes and the condition it succeeds under:
a task with its dependencies (`createTask_made`, `createTask_iff`), the evidence of a task
(`Told`, `migrateMessages_ok`, `migrateMessages_iff`) and the status of a task (`Moved`).
-/

namespace Cmpath
open Lib Lib.Txn

namespace Legacy

open Autosave (Regular)

variable {host : Host} {clk : Clock} {db db' : Db} {taskId : Int}

/-! ## A task -/

section Task

/-- The dependencies of a new task. -/
structure Joined (tid : Int) (parents : List Int) (db db' : Db) : Prop where
  dependencies : db'.dependencies = db.dependencies ++ parents.map fun p => ⟨tid, p⟩
  tasks : db'.tasks = db.tasks
  aliases : db'.aliases = db.aliases
  messages : db'.messages = db.messages
  runtimeState : db'.runtimeState = db.runtimeState

/-- `executemany("INSERT INTO dependencies ...")`. -/
def insertParents (tid : Int) (parents : List Int) : Tx Unit :=
  each parents fun parent => Direct.exec (.insertDependency tid parent)

theorem insertParents_ok {tid : Int} {parents : List Int} {u : Unit}
    (h : insertParents tid parents db = .ok (u, db')) : Joined tid parents db db' := by
  induction parents generalizing db with
  | nil =>
    obtain rfl := each_nil_ok.mp h
    exact ⟨by simp, rfl, rfl, rfl, rfl⟩
  | cons p rest ih =>
    obtain ⟨mid, first, more⟩ := each_cons_ok.mp h
    simp only [Direct.exec, bind_ok, modify_ok] at first
    obtain ⟨_, _, checks, rfl⟩ := first
    obtain ⟨_, _, rfl⟩ := requireDependency_ok checks
    obtain ⟨dependencies, tasks, aliases, messages, runtimeState⟩ := ih more
    refine ⟨?_, tasks, aliases, messages, runtimeState⟩
    rw [dependencies, List.map_cons, List.append_cons]
    rfl

/-- They can be written for parents that are there, each once. -/
theorem insertParents_total {tid : Int} {parents : List Int} (here : (db.task? tid).isSome)
    (there : ∀ p ∈ parents, (db.task? p).isSome ∧ p ≠ tid) (once : parents.Nodup)
    (fresh : ∀ p ∈ parents, ⟨tid, p⟩ ∉ db.dependencies) :
    ∃ db', insertParents tid parents db = .ok ((), db') := by
  induction parents generalizing db with
  | nil => exact ⟨db, rfl⟩
  | cons p rest ih =>
    obtain ⟨present, other⟩ := there p List.mem_cons_self
    obtain ⟨new, distinct⟩ := List.nodup_cons.mp once
    have later : ∀ q ∈ rest, (⟨tid, q⟩ : DependencyRow) ∉ (db.insertDependency ⟨tid, p⟩).dependencies := by
      intro q member listed
      rcases List.mem_append.mp listed with old | last
      · exact fresh q (List.mem_cons_of_mem _ member) old
      · cases List.mem_singleton.mp last
        exact new member
    have placed : ((db.insertDependency ⟨tid, p⟩).task? tid).isSome := here
    obtain ⟨left, more⟩ := ih placed
      (fun q member => there q (List.mem_cons_of_mem _ member)) distinct later
    refine ⟨left, each_cons_ok.mpr ⟨_, ?_, more⟩⟩
    simp only [Direct.exec, requireDependency, requireTask, bind_ok, ensure_ok, require_ok, modify_ok]
    refine ⟨(), db, ⟨(), db, ⟨?_, rfl⟩, (), db, ⟨?_, rfl⟩, (), db, ⟨here, rfl⟩, present, rfl⟩, rfl⟩
    · simpa using Ne.symm other
    · rw [List.contains_eq_mem, Bool.not_eq_true', decide_eq_false_iff_not]
      exact fresh p List.mem_cons_self

/-- The rows a new task is made of. -/
structure Made (title : Text) (parents : List Int) (snapshot : Json) (db db' : Db) (id : Int) :
    Prop where
  next : id = db.sequence.tasks + 1
  tasks : ∃ row, db'.tasks = db.tasks ++ [row] ∧ row.id = id ∧ row.title = title.strip ∧
    row.status = .opened ∧ row.snapshot = snapshot
  dependencies : db'.dependencies = db.dependencies ++ parents.dedup.map fun p => ⟨id, p⟩
  messages : db'.messages = db.messages
  runtimeState : db'.runtimeState = db.runtimeState
  evolves : Evolves Write.Any db db'

/-- What `create_task` checks of the tasks it depends on. -/
def requireParents (parents : List Int) : Tx Unit :=
  each parents fun dep => do
    let _ ← TaskMemory.taskRow dep
    pure ()

theorem requireParents_ok {parents : List Int} {u : Unit}
    (h : requireParents parents db = .ok (u, db')) :
    db' = db ∧ ∀ p ∈ parents, (db.task? p).isSome := by
  induction parents generalizing db with
  | nil => exact ⟨each_nil_ok.mp h, fun p member => absurd member List.not_mem_nil⟩
  | cons p rest ih =>
    obtain ⟨mid, first, more⟩ := each_cons_ok.mp h
    obtain ⟨row, _, found, last⟩ := bind_ok.mp first
    obtain ⟨here, rfl⟩ := TaskMemory.taskRow_ok found
    obtain ⟨_, rfl⟩ := pure_ok.mp last
    obtain ⟨rfl, rest_⟩ := ih more
    exact ⟨rfl, List.forall_mem_cons.mpr ⟨by rw [here]; rfl, rest_⟩⟩

theorem requireParents_total {parents : List Int} (regular : Regular db)
    (there : ∀ p ∈ parents, (db.task? p).isSome) : requireParents parents db = .ok ((), db) := by
  induction parents with
  | nil => rfl
  | cons p rest ih =>
    have here := there p List.mem_cons_self
    obtain ⟨row, found⟩ := TaskMemory.taskRow_total (regular.positive here) here
    refine each_cons_ok.mpr ⟨db, bind_ok.mpr ⟨row, db, found, rfl⟩, ?_⟩
    exact ih fun q member => there q (List.mem_cons_of_mem _ member)

/-- `create_task` with one alias, its loops by name. -/
theorem createTask_eq (title : Text) (parents : List Int) (alias_ : Text) (snapshot : Json) :
    TaskMemory.createTask host clk title parents [alias_] snapshot = (do
      ensure (title.strip != [])
        (TaskMemory.raising .value "A nonempty task title is required")
      ensure (!([TaskMemory.phrase host alias_].contains []))
        (TaskMemory.raising .value "Aliases must contain words")
      requireParents parents.dedup
      TaskMemory.bindable title.strip
      TaskMemory.bindableJson snapshot
      let tid ← insertTask title.strip snapshot (clk.now 0)
      insertParents tid parents.dedup
      each [TaskMemory.phrase host alias_] fun name => do
        TaskMemory.bindable name
        Direct.exec (.insertAlias tid name)
      TaskMemory.event .create tid (clk.now 1)
      pure tid : Tx Int) := rfl

theorem createTask_made {title : Text} {parents : List Int} {alias_ : Text} {snapshot : Json} {id : Int}
    (h : TaskMemory.createTask host clk title parents [alias_] snapshot db = .ok (id, db')) :
    Made title parents snapshot db db' id ∧ TaskMemory.Nameable host title alias_ ∧
      snapshot.sound = true ∧ ∀ p ∈ parents, (db.task? p).isSome := by
  have evolves := (TaskMemory.keeps_createTask clk host title parents [alias_] snapshot _ _ _ h).any
  rw [createTask_eq] at h
  simp only [TaskMemory.bindable, TaskMemory.bindableJson, bind_ok, ensure_ok, each_cons_ok,
    each_nil_ok, pure_ok] at h
  obtain ⟨_, _, ⟨titled, rfl⟩, _, _, ⟨worded, rfl⟩, _, _, deps, _, _, ⟨bound, rfl⟩, _, _, ⟨sound, rfl⟩,
    _, _, made, _, _, joins, _, _, ⟨_, ⟨_, _, ⟨named, rfl⟩, aliased⟩, rfl⟩, _, _, logged, rfl, rfl⟩ := h
  obtain ⟨rfl, there⟩ := requireParents_ok deps
  obtain ⟨next, rfl⟩ := insertTask_ok made
  obtain ⟨dependencies, tasks, _, messages, runtimeState⟩ := insertParents_ok joins
  simp only [Direct.exec, bind_ok, modify_ok] at aliased
  obtain ⟨_, _, checks, rfl⟩ := aliased
  obtain ⟨_, rfl⟩ := requireAlias_ok checks
  rw [insertEvent_ok logged] at evolves ⊢
  refine ⟨⟨next, ⟨_, tasks, rfl, rfl, rfl, rfl⟩, dependencies, messages, runtimeState, evolves⟩,
    ⟨⟨by simpa using titled, bound⟩, ?_, named⟩, sound, fun p member => ?_⟩
  · intro empty
    rw [empty] at worded
    simp at worded
  · exact there p (List.mem_dedup.mpr member)

/-- The children of the dependencies are tasks that were given. -/
def Edged (db : Db) : Prop := ∀ d ∈ db.dependencies, d.child ≤ db.sequence.tasks

theorem createTask_iff {title : Text} {parents : List Int} {alias_ : Text} {snapshot : Json}
    (regular : Regular db) (edged : Edged db) :
    (∃ id db', TaskMemory.createTask host clk title parents [alias_] snapshot db = .ok (id, db')) ↔
      TaskMemory.Nameable host title alias_ ∧ snapshot.sound = true ∧
        ∀ p ∈ parents, (db.task? p).isSome := by
  constructor
  · rintro ⟨id, db', h⟩
    exact (createTask_made h).2
  · rintro ⟨⟨⟨titled, bound⟩, worded, named⟩, sound, there⟩
    let row : TaskRow := ⟨db.sequence.tasks + 1, title.strip, .opened, snapshot, 1, clk.now 0⟩
    have here : ((db.insertTask row).task? row.id).isSome := by
      show ((db.tasks ++ [row]).find? (·.id == row.id)).isSome
      rw [List.find?_isSome]
      exact ⟨row, List.mem_append_right _ List.mem_cons_self, by simp⟩
    have known : ∀ p, (db.task? p).isSome → p ≤ db.sequence.tasks := by
      intro p found
      obtain ⟨r, old⟩ := Option.isSome_iff_exists.mp found
      have given := regular.tasks.given r (List.mem_of_find?_eq_some old)
      rw [task?_id old] at given
      exact given
    have later : ∀ p ∈ parents.dedup, ((db.insertTask row).task? p).isSome ∧ p ≠ row.id := by
      intro p member
      have old := there p (List.mem_dedup.mp member)
      refine ⟨?_, fun same => ?_⟩
      · show ((db.tasks ++ [row]).find? (·.id == p)).isSome
        rw [List.find?_append, Option.isSome_or, Bool.or_eq_true]
        exact .inl old
      · have := known p old
        have next : row.id = db.sequence.tasks + 1 := rfl
        omega
    have fresh : ∀ p ∈ parents.dedup, (⟨row.id, p⟩ : DependencyRow) ∉ (db.insertTask row).dependencies := by
      intro p _ listed
      have := edged _ listed
      have next : row.id = db.sequence.tasks + 1 := rfl
      dsimp only at this
      omega
    obtain ⟨mid, joins⟩ := insertParents_total here later (List.nodup_dedup parents) fresh
    have same := insertParents_ok joins
    have free : mid.aliases.contains ⟨row.id, TaskMemory.phrase host alias_⟩ = false := by
      rw [same.aliases, List.contains_eq_mem, decide_eq_false_iff_not]
      intro member
      have given := regular.attached.aliases _ member
      have next : row.id = db.sequence.tasks + 1 := rfl
      dsimp only at given
      omega
    have placed : (mid.task? row.id).isSome := by
      rw [task?_of_tasks same.tasks]
      exact here
    rw [createTask_eq]
    simp only [TaskMemory.bindable, TaskMemory.bindableJson, TaskMemory.event, insertEvent, insertTask,
      Direct.exec, requireAlias, requireTask, bind_ok, ensure_ok, each_cons_ok, each_nil_ok, read_ok,
      modify_ok, require_ok, pure_ok]
    refine ⟨_, _, (), db, ⟨by simpa using titled, rfl⟩, (), db, ⟨?_, rfl⟩, (), db,
      requireParents_total regular fun p member => there p (List.mem_dedup.mp member), (), db,
      ⟨bound, rfl⟩, (), db, ⟨sound, rfl⟩, _, _, ⟨_, _, ⟨rfl, rfl⟩, (), _, rfl, rfl, rfl⟩, (), mid, joins,
      (), _, ⟨_, ⟨(), _, ⟨named, rfl⟩, (), _, ⟨(), _, ⟨?_, rfl⟩, placed, rfl⟩, rfl⟩, rfl⟩, (), _, rfl, rfl,
      rfl⟩
    · rw [List.contains_eq_mem, Bool.not_eq_true', decide_eq_false_iff_not]
      intro member
      exact worded (List.mem_singleton.mp member).symm
    · rw [Bool.not_eq_true']
      exact free

theorem Made.here {title : Text} {parents : List Int} {snapshot : Json} {id : Int}
    (h : Made title parents snapshot db db' id) : (db'.task? id).isSome := by
  obtain ⟨row, tasks, same, _⟩ := h.tasks
  unfold Db.task?
  rw [tasks, List.find?_isSome]
  exact ⟨row, List.mem_append_right _ List.mem_cons_self, by simpa using same⟩

/-- What `create_task` checks of the title, the alias and the snapshot. -/
structure Named (host : Host) (title : Json) (alias_ : Text) (snapshot : Json) : Prop where
  title : ∃ t, title = .str t ∧ TaskMemory.Nameable host t alias_
  isObject : Autosave.isObject snapshot = true
  finite : snapshot.finite = true
  sound : snapshot.sound = true

theorem created_ok {title : Json} {parents : List Int} {alias_ : Text} {snapshot : Json} {id : Int}
    (h : createTask host clk title parents alias_ snapshot db = .ok (id, db')) :
    Named host title alias_ snapshot ∧ (∀ p ∈ parents, (db.task? p).isSome) ∧
      ∃ t, title = .str t ∧ Made t parents snapshot db db' id := by
  cases title with
  | str t =>
    simp only [createTask, bind_ok, ensure_ok] at h
    obtain ⟨_, _, ⟨_, rfl⟩, _, _, ⟨_, rfl⟩, _, _, ⟨object, rfl⟩, _, _, ⟨finite, rfl⟩, run⟩ := h
    obtain ⟨made, nameable, sound, there⟩ := createTask_made run
    exact ⟨⟨⟨t, rfl, nameable⟩, object, finite, sound⟩, there, t, rfl, made⟩
  | _ => simp only [createTask, fail_ok] at h

variable (clk) in
theorem created_total {title : Json} {parents : List Int} {alias_ : Text} {snapshot : Json}
    (regular : Regular db) (edged : Edged db) (named : Named host title alias_ snapshot)
    (there : ∀ p ∈ parents, (db.task? p).isSome) :
    ∃ id db', createTask host clk title parents alias_ snapshot db = .ok (id, db') := by
  obtain ⟨t, rfl, nameable⟩ := named.title
  obtain ⟨id, left, run⟩ := (createTask_iff regular edged).mpr ⟨nameable, named.sound, there⟩
  simp only [createTask, bind_ok, ensure_ok]
  exact ⟨id, left, (), db, ⟨by simpa using nameable.title.1, rfl⟩, (), db,
    ⟨by simpa using nameable.alias_.1, rfl⟩, (), db, ⟨named.isObject, rfl⟩, (), db, ⟨named.finite, rfl⟩, run⟩

end Task

/-! ## A status -/

section Status

/-- A task took a status and kept its title and its snapshot; no other task changed. -/
structure Moved (id : Int) (status : TaskStatus) (db db' : Db) : Prop where
  task : ∃ row row', db.task? id = some row ∧ db'.task? id = some row' ∧ row'.title = row.title ∧
    row'.snapshot = row.snapshot ∧ row'.status = status
  others : ∀ other, other ≠ id → db'.task? other = db.task? other
  ids : db'.tasks.map (·.id) = db.tasks.map (·.id)
  messages : db'.messages = db.messages
  dependencies : db'.dependencies = db.dependencies
  evolves : Evolves Write.Any db db'

/-- A new status in its row. -/
theorem Moved.of_replace {status : TaskStatus} {row : TaskRow} {revision : Int}
    (found : db.task? taskId = some row)
    (tasks : db'.tasks = Table.replace (·.id == row.id)
      { row with status := status, revision := revision } db.tasks)
    (messages : db'.messages = db.messages) (dependencies : db'.dependencies = db.dependencies)
    (evolves : Evolves Write.Any db db') : Moved taskId status db db' := by
  obtain rfl := task?_id found
  refine ⟨⟨row, { row with status := status, revision := revision }, found, ?_, rfl, rfl, rfl⟩,
    fun other apart => ?_, ?_, messages, dependencies, evolves⟩
  · unfold Db.task?
    rw [tasks]
    exact Table.find?_replace_self found rfl
  · unfold Db.task?
    rw [tasks]
    exact Table.find?_replace_ne rfl apart
  · rw [tasks]
    exact Table.map_replace_of_key found rfl

theorem archive_moved {u : Unit} (h : TaskMemory.archive clk taskId db = .ok (u, db')) :
    Moved taskId .archived db db' ∧ db'.runtimeState = db.runtimeState := by
  obtain ⟨row, found, tasks⟩ := TaskMemory.archive_ok h
  have evolves : Evolves Write.Any db db' := TaskMemory.keeps_archive clk (fun _ _ _ => trivial)
    (fun _ _ _ => trivial) taskId _ _ _ h
  simp only [TaskMemory.archive, bind_ok, require_ok] at h
  obtain ⟨_, _, read, _, _, ⟨_, rfl⟩, _, mid, update, logged⟩ := h
  obtain ⟨_, rfl⟩ := TaskMemory.taskRow_ok read
  have event := insertEvent_ok logged
  rcases updateTask_ok update with ⟨old, _, rfl⟩ | ⟨_, rfl⟩
  · rw [event] at tasks evolves ⊢
    exact ⟨.of_replace found tasks rfl rfl evolves, rfl⟩
  · rw [event] at tasks evolves ⊢
    exact ⟨.of_replace found tasks rfl rfl evolves, rfl⟩

variable (clk) in
theorem archive_total (regular : Regular db) (here : (db.task? taskId).isSome)
    (idle : db.runtimeState.activeTask ≠ some taskId) :
    ∃ db', TaskMemory.archive clk taskId db = .ok ((), db') := by
  obtain ⟨row, found⟩ := TaskMemory.taskRow_total (regular.positive here) here
  simp only [TaskMemory.archive, TaskMemory.event, insertEvent, updateTask, bind_ok, require_ok, modify_ok]
  exact ⟨_, row, db, found, (), db, ⟨by simpa using idle, rfl⟩, (), _, rfl, rfl⟩

/-- The rows a resumed task leaves alone. -/
theorem resume_frame {out : Json} (h : TaskMemory.resume clk taskId none db = .ok (out, db')) :
    db'.messages = db.messages ∧ db'.dependencies = db.dependencies ∧
      db'.runtimeState.activeTask = some taskId := by
  simp only [TaskMemory.resume, bind_ok, ensure_ok, require_ok] at h
  obtain ⟨_, _, ⟨_, rfl⟩, row, _, read, _, start, ⟨_, rfl⟩, _, active, state, run⟩ := h
  obtain ⟨_, rfl⟩ := TaskMemory.taskRow_ok read
  have state := setActiveTask_ok state
  subst state
  split at run
  · simp only [bind_ok, pure_ok] at run
    obtain ⟨_, mid, update, _, _, logged, _, rfl⟩ := run
    have event := insertEvent_ok logged
    subst event
    rcases updateTask_ok update with ⟨_, _, rfl⟩ | ⟨_, rfl⟩ <;> exact ⟨rfl, rfl, rfl⟩
  · simp only [bind_ok, pure_ok] at run
    obtain ⟨_, _, logged, _, rfl⟩ := run
    have event := insertEvent_ok logged
    subst event
    exact ⟨rfl, rfl, rfl⟩

/-- A resumed task is open, and the active one. -/
theorem resume_moved {out : Json} (h : TaskMemory.resume clk taskId none db = .ok (out, db')) :
    Moved taskId .opened db db' ∧ db'.runtimeState.activeTask = some taskId := by
  obtain ⟨messages, dependencies, active⟩ := resume_frame h
  obtain ⟨row, found, tasks⟩ := TaskMemory.resume_ok h
  have evolves : Evolves Write.Any db db' := TaskMemory.keeps_resume clk (fun _ _ _ => trivial)
    (fun _ _ _ => trivial) (fun _ => trivial) taskId none _ _ _ h
  refine ⟨?_, active⟩
  by_cases archived : row.status = .archived
  · rw [if_pos archived] at tasks
    exact .of_replace found tasks messages dependencies evolves
  · rw [if_neg archived] at tasks
    have opened : row.status = .opened := by
      cases status : row.status with
      | opened => rfl
      | archived => exact absurd status archived
    exact ⟨⟨row, row, found, (task?_of_tasks tasks _).trans found, rfl, rfl, opened⟩,
      fun other _ => task?_of_tasks tasks other, by rw [tasks], messages, dependencies, evolves⟩

variable (clk) in
theorem resume_total (regular : Regular db) (here : (db.task? taskId).isSome) :
    ∃ out db', TaskMemory.resume clk taskId none db = .ok (out, db') := by
  obtain ⟨row, found⟩ := TaskMemory.taskRow_total (regular.positive here) here
  simp only [TaskMemory.resume, setActiveTask, updateTask, TaskMemory.event, insertEvent, Option.all_none]
  rw [bind_of_ok ((ensure_ok (u := ())).mpr ⟨rfl, rfl⟩), bind_of_ok found, bind_of_ok ((require_ok (u := ())).mpr ⟨rfl, rfl⟩),
    bind_of_ok ((modify_ok (u := ())).mpr rfl)]
  by_cases archived : row.status = .archived
  · rw [if_pos archived, bind_of_ok ((modify_ok (u := ())).mpr rfl), bind_of_ok ((modify_ok (u := ())).mpr rfl)]
    exact ⟨row.snapshot, _, rfl⟩
  · rw [if_neg archived, bind_of_ok ((modify_ok (u := ())).mpr rfl)]
    exact ⟨row.snapshot, _, rfl⟩

end Status

/-! ## Evidence -/

section Evidence

/-- A message as it was given. -/
def evidence (m : MessageRow) : Role × Text × Json := (m.role, m.content, m.source)

/-- Evidence that can be stored. -/
structure Storable (e : Role × Text × Json) : Prop where
  spoken : e.2.1.strip ≠ []
  valid : e.2.1.valid = true
  sound : e.2.2.sound = true
  finite : e.2.2.finite = true

/-- Evidence was appended to one task, in order, and nothing else was written. -/
structure Told (taskId : Int) (given : List (Role × Text × Json)) (db db' : Db) : Prop where
  rows : ∃ rows, db'.messages = db.messages ++ rows ∧ rows.map evidence = given ∧
    ∀ m ∈ rows, m.taskId = taskId
  evolves : Evolves Autosave.Write.Telling db db'

theorem Told.refl (taskId : Int) (db : Db) : Told taskId [] db db :=
  ⟨⟨[], (List.append_nil _).symm, rfl, List.forall_mem_nil _⟩, .refl db⟩

theorem Told.trans {first second : List (Role × Text × Json)} {mid : Db}
    (h : Told taskId first db mid) (more : Told taskId second mid db') :
    Told taskId (first ++ second) db db' := by
  obtain ⟨rows, messages, same, own⟩ := h.rows
  obtain ⟨rows', messages', same', own'⟩ := more.rows
  refine ⟨⟨rows ++ rows', ?_, ?_, fun m member => ?_⟩, h.evolves.trans more.evolves⟩
  · rw [messages', messages, List.append_assoc]
  · rw [List.map_append, same, same']
  · exact (List.mem_append.mp member).elim (own m) (own' m)

/-- The rows evidence leaves alone. -/
theorem telling_frame (h : Evolves Autosave.Write.Telling db db') :
    db'.tasks = db.tasks ∧ db'.dependencies = db.dependencies ∧ db'.runtimeState = db.runtimeState := by
  refine h.rel (R := fun a b => b.tasks = a.tasks ∧ b.dependencies = a.dependencies ∧
    b.runtimeState = a.runtimeState) (fun _ => ⟨rfl, rfl, rfl⟩) (fun _ _ _ first second => ?_)
    fun w db telling _ => ?_
  · exact ⟨second.1.trans first.1, second.2.1.trans first.2.1, second.2.2.trans first.2.2⟩
  · cases w <;> first | exact ⟨rfl, rfl, rfl⟩ | exact telling.elim

theorem append_told {role : Role} {content : Text} {source : Json} {id : Int}
    (h : append clk taskId role content source db = .ok (id, db')) :
    Told taskId [(role, content, source)] db db' ∧ Storable (role, content, source) := by
  simp only [append, bind_ok, ensure_ok] at h
  obtain ⟨_, _, ⟨_, rfl⟩, _, _, ⟨finite, rfl⟩, run⟩ := h
  obtain ⟨m, messages, _, own, source_, _, content_, named, passed⟩ := TaskMemory.append_ok clk run
  rw [Autosave.role_ofText] at named
  refine ⟨⟨⟨[m], messages, ?_, fun n member => ?_⟩, (Autosave.append_frame run).1⟩,
    passed.nonempty, passed.encodable.1, passed.encodable.2, finite⟩
  · rw [List.map_singleton, evidence, source_, content_, Option.some.inj named]
  · rw [List.mem_singleton.mp member]
    exact own

variable (clk) in
theorem append_total {role : Role} {content : Text} {source : Json} (regular : Regular db)
    (here : (db.task? taskId).isSome) (h : Storable (role, content, source)) :
    ∃ id db', append clk taskId role content source db = .ok (id, db') := by
  obtain ⟨id, left, run⟩ :
      ∃ id left, TaskMemory.append clk taskId role.text content source db = .ok (id, left) :=
    (Autosave.append_total role regular here).mpr ⟨h.spoken, h.valid, h.sound⟩
  simp only [append, bind_ok, ensure_ok]
  exact ⟨id, left, (), db, ⟨by simpa using h.spoken, rfl⟩, (), db, ⟨h.finite, rfl⟩, run⟩

variable {τ : Type} [LinearOrder τ] {stamp : τ → Json} {pid : Text} {clks : Nat → Clock}

/-- A message has something to store. -/
def Message.spoken (m : Message τ) : Bool := m.content.strip != []

/-- What a message is stored as. -/
def Message.evidence (stamp : τ → Json) (pid : Text) (m : Message τ) : Role × Text × Json :=
  (m.storedRole, m.content, m.source stamp pid)

/-- What the messages of a path are stored as: blank ones are left out. -/
def told (stamp : τ → Json) (pid : Text) (messages : List (Message τ)) : List (Role × Text × Json) :=
  (messages.filter (·.spoken)).map (·.evidence stamp pid)

omit [LinearOrder τ] in
theorem told_cons (m : Message τ) (rest : List (Message τ)) :
    told stamp pid (m :: rest) =
      (if m.content.strip = [] then [] else [m.evidence stamp pid]) ++ told stamp pid rest := by
  by_cases blank : m.content.strip = []
  · have skipped : m.spoken = false := by simp [Message.spoken, blank]
    rw [told, List.filter_cons_of_neg (by simp [skipped]), if_pos blank]
    rfl
  · have kept : m.spoken = true := by simp [Message.spoken, blank]
    rw [told, List.filter_cons_of_pos kept, if_neg blank]
    rfl

/-- No timestamp of these messages is owned by another path. -/
def Claimable (pid : Text) (owners : OrderedDict τ Text) (messages : List (Message τ)) : Prop :=
  ∀ m ∈ messages, ∀ p, owners.get? m.ts = some p → p = pid

/-- The owners once these messages have been claimed. -/
def Claimed (pid : Text) (messages : List (Message τ)) (owners owners' : OrderedDict τ Text) : Prop :=
  ∀ t, owners'.get? t = if t ∈ messages.map (·.ts) then some pid else owners.get? t

theorem claimable_cons {owners : OrderedDict τ Text} {m : Message τ} {rest : List (Message τ)} :
    Claimable pid owners (m :: rest) ↔
      (∀ p, owners.get? m.ts = some p → p = pid) ∧ Claimable pid (owners.set m.ts pid) rest := by
  constructor
  · intro h
    refine ⟨h m List.mem_cons_self, fun n member p owned => ?_⟩
    rw [OrderedDict.get?_set] at owned
    by_cases same : n.ts = m.ts
    · rw [if_pos same] at owned
      exact (Option.some.inj owned).symm
    · rw [if_neg same] at owned
      exact h n (List.mem_cons_of_mem _ member) p owned
  · rintro ⟨first, later⟩ n member p owned
    rcases List.mem_cons.mp member with rfl | member
    · exact first p owned
    by_cases same : n.ts = m.ts
    · rw [same] at owned
      exact first p owned
    · refine later n member p ?_
      rw [OrderedDict.get?_set_of_ne _ _ same]
      exact owned

theorem Claimed.cons {owners owners' : OrderedDict τ Text} {m : Message τ} {rest : List (Message τ)}
    (h : Claimed pid rest (owners.set m.ts pid) owners') : Claimed pid (m :: rest) owners owners' := by
  intro t
  rw [h t, OrderedDict.get?_set]
  simp only [List.map_cons, List.mem_cons]
  by_cases later : t ∈ rest.map (·.ts)
  · rw [if_pos later, if_pos (.inr later)]
  · by_cases now : t = m.ts
    · rw [if_neg later, if_pos now, if_pos (.inl now)]
    · rw [if_neg later, if_neg now, if_neg (not_or.mpr ⟨now, later⟩)]

theorem owned_iff {owners : OrderedDict τ Text} {t : τ} :
    (owners.get? t).all (· == pid) = true ↔ ∀ p, owners.get? t = some p → p = pid := by
  cases owners.get? t with
  | none => simp
  | some q => simp

/-- The messages of a path are stored in order, and their timestamps are the path's from then on. -/
theorem migrateMessages_ok {owners owners' : OrderedDict τ Text} {messages : List (Message τ)}
    (h : migrateMessages clks stamp pid taskId owners messages db = .ok (owners', db')) :
    Told taskId (told stamp pid messages) db db' ∧ Claimable pid owners messages ∧
      Claimed pid messages owners owners' ∧ ∀ e ∈ told stamp pid messages, Storable e := by
  induction messages generalizing owners db with
  | nil =>
    obtain ⟨rfl, rfl⟩ := pure_ok.mp h
    exact ⟨.refl taskId _, fun m member => absurd member List.not_mem_nil, fun t => by simp,
      fun e member => absurd member List.not_mem_nil⟩
  | cons m rest ih =>
    simp only [migrateMessages, bind_ok, ensure_ok] at h
    obtain ⟨_, _, ⟨own, rfl⟩, h⟩ := h
    have first := owned_iff.mp own
    rw [told_cons]
    by_cases blank : m.content.strip = []
    · rw [if_pos blank] at h ⊢
      obtain ⟨rows, claimable, claimed, storable⟩ := ih h
      exact ⟨rows, claimable_cons.mpr ⟨first, claimable⟩, claimed.cons, storable⟩
    · rw [if_neg blank] at h ⊢
      obtain ⟨_, mid, put, more⟩ := bind_ok.mp h
      obtain ⟨now, fits⟩ := append_told put
      obtain ⟨rows, claimable, claimed, storable⟩ := ih more
      refine ⟨now.trans rows, claimable_cons.mpr ⟨first, claimable⟩, claimed.cons, fun e member => ?_⟩
      rcases List.mem_append.mp member with here | later
      · rw [List.mem_singleton.mp here]
        exact fits
      · exact storable e later

variable (clks) in
/-- They can be stored where no timestamp is another path's and each of them can be. -/
theorem migrateMessages_total {owners : OrderedDict τ Text} {messages : List (Message τ)}
    (regular : Regular db) (here : (db.task? taskId).isSome)
    (claimable : Claimable pid owners messages) (storable : ∀ e ∈ told stamp pid messages, Storable e) :
    ∃ owners' db', migrateMessages clks stamp pid taskId owners messages db = .ok (owners', db') := by
  induction messages generalizing owners db with
  | nil => exact ⟨owners, db, rfl⟩
  | cons m rest ih =>
    obtain ⟨first, later⟩ := claimable_cons.mp claimable
    rw [told_cons] at storable
    simp only [migrateMessages, bind_ok, ensure_ok]
    by_cases blank : m.content.strip = []
    · rw [if_pos blank] at storable ⊢
      obtain ⟨owners', db', run⟩ := ih regular here later storable
      exact ⟨owners', db', (), db, ⟨owned_iff.mpr first, rfl⟩, run⟩
    · rw [if_neg blank] at storable ⊢
      obtain ⟨id, mid, put⟩ := append_total (clks rest.length) regular here
        (storable _ (List.mem_append_left _ List.mem_cons_self))
      obtain ⟨now, _⟩ := append_told put
      have placed : (mid.task? taskId).isSome := by
        rw [task?_of_tasks (telling_frame now.evolves).1]
        exact here
      obtain ⟨owners', db', run⟩ := ih (regular.evolves now.evolves) placed later
        fun e member => storable e (List.mem_append_right _ member)
      exact ⟨owners', db', (), db, ⟨owned_iff.mpr first, rfl⟩, bind_ok.mpr ⟨id, mid, put, run⟩⟩

/-- What the waypoint of a path is stored as. -/
def Path.waypointEvidence (rec_ : Path τ) (pid : Text) : List (Role × Text × Json) :=
  if rec_.waypoint = [] then []
  else [(.document, rec_.waypointText, Path.waypointSource pid)]

omit [LinearOrder τ] in
theorem migrateWaypoint_ok {rec_ : Path τ} {u : Unit}
    (h : migrateWaypoint clk pid rec_ taskId db = .ok (u, db')) :
    Told taskId (rec_.waypointEvidence pid) db db' ∧ ∀ e ∈ rec_.waypointEvidence pid, Storable e := by
  unfold migrateWaypoint at h
  unfold Path.waypointEvidence
  by_cases none_ : rec_.waypoint = []
  · rw [if_pos none_] at h ⊢
    obtain ⟨_, rfl⟩ := pure_ok.mp h
    exact ⟨.refl taskId _, fun e member => absurd member List.not_mem_nil⟩
  · rw [if_neg none_] at h ⊢
    obtain ⟨_, mid, put, last⟩ := bind_ok.mp h
    obtain ⟨_, rfl⟩ := pure_ok.mp last
    obtain ⟨now, fits⟩ := append_told put
    exact ⟨now, fun e member => by rw [List.mem_singleton.mp member]; exact fits⟩

variable (clk) in
omit [LinearOrder τ] in
theorem migrateWaypoint_total {rec_ : Path τ} (regular : Regular db) (here : (db.task? taskId).isSome)
    (storable : ∀ e ∈ rec_.waypointEvidence pid, Storable e) :
    ∃ db', migrateWaypoint clk pid rec_ taskId db = .ok ((), db') := by
  unfold migrateWaypoint
  unfold Path.waypointEvidence at storable
  by_cases none_ : rec_.waypoint = []
  · rw [if_pos none_]
    exact ⟨db, rfl⟩
  · rw [if_neg none_] at storable ⊢
    obtain ⟨id, mid, put⟩ := append_total clk regular here (storable _ List.mem_cons_self)
    exact ⟨mid, bind_ok.mpr ⟨id, mid, put, rfl⟩⟩

end Evidence

end Legacy

end Cmpath
