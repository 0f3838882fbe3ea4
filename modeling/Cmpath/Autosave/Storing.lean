import Cmpath.Autosave.Appending
import Cmpath.Autosave.Keeping

/-!
# When a batch goes through

A batch of autosave fails for a text SQLite cannot bind or for a row that is not there, and for
nothing else. Each writer here succeeds exactly under a condition on the store and its arguments
(`project_total`, `appendRows_total`, `storeState_total`, `commitTurn_total`, `commitPass_total`).
-/

namespace Cmpath
open Lib Lib.Txn

/-! ## Facts and aliases of given tasks -/

/-- Every fact and every alias belongs to a task whose identifier was given. -/
structure Db.Attached (db : Db) : Prop where
  facts : ∀ f ∈ db.facts, f.taskId ≤ db.sequence.tasks
  aliases : ∀ a ∈ db.aliases, a.taskId ≤ db.sequence.tasks

theorem Write.attached {w : Write} {db : Db} (legal : w.Legal db) (keys : db.TaskKeys)
    (h : db.Attached) : (w.apply db).Attached := by
  cases w with
  | insertTask new =>
    have next : new.id = db.sequence.tasks + 1 := legal
    refine ⟨fun f member => ?_, fun a member => ?_⟩
    · have old := h.facts f member
      show f.taskId ≤ new.id
      omega
    · have old := h.aliases a member
      show a.taskId ≤ new.id
      omega
  | insertFact new =>
    refine ⟨fun f member => ?_, h.aliases⟩
    rcases List.mem_append.mp member with old | last
    · exact h.facts f old
    · rw [List.mem_singleton.mp last]
      exact keys.task_given legal
  | replaceFact old new =>
    refine ⟨fun f member => ?_, h.aliases⟩
    rcases Table.mem_replace member with rfl | kept
    · exact keys.task_given legal.2.2
    · exact h.facts f kept
  | insertAlias new =>
    refine ⟨h.facts, fun a member => ?_⟩
    rcases List.mem_append.mp member with old | last
    · exact h.aliases a old
    · rw [List.mem_singleton.mp last]
      exact keys.task_given legal
  | replaceAlias old new =>
    refine ⟨h.facts, fun a member => ?_⟩
    rcases Table.mem_replace member with rfl | kept
    · exact keys.task_given legal.2
    · exact h.aliases a kept
  | deleteFacts gone =>
    simp only [Write.apply, Db.deleteFacts]
    refine ⟨fun f member => ?_, fun a member => ?_⟩
    · rw [touchAll_facts] at member
      rw [touchAll_sequence]
      exact h.facts f (Table.mem_delete.mp member).1
    · rw [touchAll_aliases] at member
      rw [touchAll_sequence]
      exact h.aliases a member
  | deleteAliases gone =>
    simp only [Write.apply, Db.deleteAliases]
    refine ⟨fun f member => ?_, fun a member => ?_⟩
    · rw [touchAll_facts] at member
      rw [touchAll_sequence]
      exact h.facts f member
    · rw [touchAll_aliases] at member
      rw [touchAll_sequence]
      exact h.aliases a (Table.mem_delete.mp member).1
  | deleteTasks | deleteMessages | deleteDependencies =>
    simp only [Write.apply, Db.deleteTasks, Db.deleteMessages, Db.deleteDependencies]
    refine ⟨fun f member => ?_, fun a member => ?_⟩
    · rw [touchAll_facts] at member
      rw [touchAll_sequence]
      exact h.facts f member
    · rw [touchAll_aliases] at member
      rw [touchAll_sequence]
      exact h.aliases a member
  | _ => exact ⟨h.facts, h.aliases⟩

theorem Reachable.attached {host : Host} {db : Db} (h : Reachable host db) : db.Attached := by
  have both : db.TaskKeys ∧ db.Attached := by
    refine h.inv (P := fun db => db.TaskKeys ∧ db.Attached)
      ⟨⟨List.nodup_nil, by simp [Db.empty]⟩, ⟨by simp [Db.empty], by simp [Db.empty]⟩⟩ ?_
    rintro db step ⟨keys, attached⟩
    refine ⟨step.taskKeys keys, ?_⟩
    obtain ⟨mid, evolves, tables, _⟩ := step.based host db
    have kept : mid.TaskKeys ∧ mid.Attached :=
      evolves.inv (P := fun db => db.TaskKeys ∧ db.Attached)
        (fun w _ _ legal both => ⟨w.taskKeys legal both.1, w.attached legal both.1 both.2⟩)
        ⟨keys, attached⟩
    refine ⟨?_, ?_⟩
    · rw [congrArg Tables.facts tables, congrArg Tables.sequence tables]
      exact kept.2.facts
    · rw [congrArg Tables.aliases tables, congrArg Tables.sequence tables]
      exact kept.2.aliases
  exact both.2

/-- Messages are numbered from one. -/
def Db.Told (db : Db) : Prop := 0 ≤ db.sequence.messages ∧ ∀ m ∈ db.messages, 0 < m.id

theorem Write.told {w : Write} {db : Db} (legal : w.Legal db) (h : db.Told) : (w.apply db).Told := by
  obtain ⟨count, ids⟩ := h
  cases w with
  | insertMessage new =>
    have next : new.id = db.sequence.messages + 1 := legal.1
    refine ⟨by show 0 ≤ new.id; omega, fun m member => ?_⟩
    rcases List.mem_append.mp member with member | member
    · exact ids m member
    · rw [List.mem_singleton.mp member]
      omega
  | replaceMessage old new =>
    refine ⟨count, fun m member => ?_⟩
    rcases Table.mem_replace member with rfl | member
    · rw [legal.2.1]
      exact ids old (List.mem_of_find?_eq_some legal.1)
    · exact ids m member
  | deleteMessages gone =>
    unfold Db.Told
    rw [Write.apply, Db.deleteMessages, touchAll_sequence, touchAll_messages]
    exact ⟨count, fun m member => ids m (Table.mem_delete.mp member).1⟩
  | deleteTasks | deleteFacts | deleteDependencies | deleteAliases =>
    unfold Db.Told
    simp only [Write.apply, Db.deleteTasks, Db.deleteFacts, Db.deleteDependencies, Db.deleteAliases,
      touchAll_sequence, touchAll_messages]
    exact ⟨count, ids⟩
  | _ => exact ⟨count, ids⟩

theorem Reachable.told {host : Host} {db : Db} (h : Reachable host db) : db.Told := by
  refine h.inv ⟨le_refl 0, by simp [Db.empty]⟩ fun db step told => ?_
  obtain ⟨mid, evolves, tables, _⟩ := step.based host db
  have kept : mid.Told := evolves.inv (fun w _ _ legal h => w.told legal h) told
  unfold Db.Told
  rw [tables]
  exact kept

namespace TaskMemory

variable {host : Host} {clk : Clock} {db db' : Db} {taskId : Int}

theorem taskRow_total (positive_ : 1 ≤ taskId) (here : (db.task? taskId).isSome) :
    ∃ row, taskRow taskId db = .ok (row, db) := by
  obtain ⟨row, found⟩ := Option.isSome_iff_exists.mp here
  refine ⟨row, ?_⟩
  simp only [taskRow, positive, bind_ok, ensure_ok, read_ok]
  exact ⟨(), db, ⟨by simpa using positive_, rfl⟩, by rw [found], rfl⟩

/-- A title and an alias a task can be made with. -/
structure Nameable (host : Host) (title alias_ : Text) : Prop where
  title : title.strip ≠ [] ∧ title.strip.valid = true
  alias_ : phrase host alias_ ≠ [] ∧ (phrase host alias_).valid = true

/-- A task without parents is made exactly when its title and its alias can be bound. -/
theorem createTask_total {title alias_ : Text} (keys : db.TaskKeys) (attached : db.Attached) :
    (∃ id db', createTask host clk title [] [alias_] (.obj []) db = .ok (id, db')) ↔
      Nameable host title alias_ := by
  have single : (List.map (fun a => Text.join (Text.lit " ") (words host a)) [alias_]).dedup =
      [phrase host alias_] := rfl
  constructor
  · rintro ⟨id, db', h⟩
    simp only [createTask, single, bindable, bind_ok, ensure_ok, each_cons_ok] at h
    obtain ⟨_, _, ⟨titled, rfl⟩, _, _, ⟨worded, rfl⟩, _, _, _, _, _, ⟨bound, rfl⟩, _, _, _, _, _, _,
      _, _, _, _, _, ⟨_, ⟨_, _, ⟨named, rfl⟩, _⟩, _⟩, _⟩ := h
    refine ⟨⟨by simpa using titled, bound⟩, ?_, named⟩
    intro empty
    rw [empty] at worded
    simp at worded
  · rintro ⟨⟨titled, bound⟩, worded, named⟩
    have sound : (Json.obj []).sound = true := rfl
    let row : TaskRow := ⟨db.sequence.tasks + 1, title.strip, .opened, .obj [], 1, clk.now 0⟩
    have here : ((db.insertTask row).task? row.id).isSome := by
      show ((db.tasks ++ [row]).find? (·.id == row.id)).isSome
      rw [List.find?_isSome]
      exact ⟨row, List.mem_append_right _ List.mem_cons_self, by simp⟩
    have free : (db.insertTask row).aliases.contains ⟨row.id, phrase host alias_⟩ = false := by
      rw [List.contains_eq_mem, decide_eq_false_iff_not]
      intro member
      have given := attached.aliases _ member
      have next : row.id = db.sequence.tasks + 1 := rfl
      dsimp only at given
      omega
    simp only [createTask, single, List.dedup_nil, bindable, bindableJson, event, insertEvent,
      insertTask, Direct.exec, requireAlias, requireTask, bind_ok, ensure_ok, each_cons_ok, each_nil_ok,
      read_ok, modify_ok, require_ok, pure_ok]
    refine ⟨_, _, (), db, ⟨by simpa using titled, rfl⟩, (), db, ⟨?_, rfl⟩, (), db, rfl, (), db,
      ⟨bound, rfl⟩, (), db, ⟨sound, rfl⟩, _, _, ⟨_, _, ⟨rfl, rfl⟩, (), _, rfl, rfl, rfl⟩, (), _, rfl,
      (), _, ⟨_, ⟨(), _, ⟨named, rfl⟩, (), _, ⟨(), _, ⟨?_, rfl⟩, ?_, rfl⟩, rfl⟩, rfl⟩, (), _, rfl, rfl,
      rfl⟩
    · rw [List.contains_eq_mem, Bool.not_eq_true', decide_eq_false_iff_not]
      intro member
      exact worded (List.mem_singleton.mp member).symm
    · rw [Bool.not_eq_true']
      exact free
    · exact here

/-- The rows such a task is made of. -/
structure Alone (host : Host) (alias_ : Text) (db left : Db) (id : Int) : Prop where
  next : id = db.sequence.tasks + 1
  tasks : ∃ row, left.tasks = db.tasks ++ [row] ∧ row.id = id
  aliases : left.aliases = db.aliases ++ [⟨id, phrase host alias_⟩]
  facts : left.facts = db.facts
  messages : left.messages = db.messages

theorem createTask_alone {title alias_ : Text} {id : Int} {left : Db}
    (h : createTask host clk title [] [alias_] (.obj []) db = .ok (id, left)) :
    Alone host alias_ db left id := by
  have single : (List.map (fun a => Text.join (Text.lit " ") (words host a)) [alias_]).dedup =
      [phrase host alias_] := rfl
  simp only [createTask, single, List.dedup_nil, bindable, bindableJson, event, insertEvent,
    insertTask, Direct.exec, requireAlias, requireTask, bind_ok, ensure_ok, each_cons_ok, each_nil_ok,
    read_ok, modify_ok, require_ok, pure_ok] at h
  obtain ⟨_, _, ⟨_, rfl⟩, _, _, ⟨_, rfl⟩, _, _, rfl, _, _, ⟨_, rfl⟩, _, _, ⟨_, rfl⟩, _, _,
    ⟨_, _, ⟨next, rfl⟩, _, _, rfl, rfl, rfl⟩, _, _, rfl, _, _, ⟨_, ⟨_, _, ⟨_, rfl⟩, _, _,
      ⟨_, _, ⟨_, rfl⟩, _, rfl⟩, rfl⟩, rfl⟩, _, _, rfl, rfl, rfl⟩ := h
  rw [← Except.ok.inj next]
  exact ⟨rfl, ⟨_, rfl, rfl⟩, rfl, rfl, rfl⟩

theorem Alone.here {alias_ : Text} {left : Db} {id : Int} (h : Alone host alias_ db left id) :
    (left.task? id).isSome := by
  obtain ⟨row, tasks, same⟩ := h.tasks
  unfold Db.task?
  rw [tasks, List.find?_isSome]
  exact ⟨row, List.mem_append_right _ List.mem_cons_self, by simpa using same⟩

/-- What `set_fact` checks of a fact that is not blank. -/
structure Factual (db : Db) (taskId : Int) (value : Json) (evidenceId : Int) : Prop where
  task : 1 ≤ taskId ∧ (db.task? taskId).isSome
  evidence : 1 ≤ evidenceId ∧ ∃ m, db.message? evidenceId = some m ∧ m.taskId = taskId
  sound : value.sound = true

/-- What passes the checks is recorded, and nothing else. -/
theorem setFact_total {key : Text} {value : Json} {evidenceId : Int} {retracted : Bool}
    (named : key.strip ≠ []) (valid : key.strip.valid = true) :
    (∃ u db', setFact clk taskId key value evidenceId retracted db = .ok (u, db')) ↔
      Factual db taskId value evidenceId := by
  constructor
  · rintro ⟨u, db', h⟩
    simp only [setFact, taskRow, positive, bindable, bindableJson, bind_ok, ensure_ok, require_ok,
      read_ok] at h
    obtain ⟨_, _, ⟨_, rfl⟩, _, _, ⟨_, _, ⟨positive, rfl⟩, found, rfl⟩, _, _, ⟨known, rfl⟩, _, _,
      ⟨_, rfl⟩, _, _, ⟨own, rfl⟩, _, _, ⟨_, rfl⟩, _, _, ⟨sound, rfl⟩, _⟩ := h
    refine ⟨⟨by simpa using positive, ?_⟩, ⟨by simpa using known, ?_⟩, sound⟩
    · split at found
      · rename_i row here
        rw [here]
        rfl
      · cases found
    · obtain ⟨m, listed, same⟩ := (Option.any_eq_true _ _).mp own
      exact ⟨m, listed, by simpa using same⟩
  · rintro ⟨⟨positive_, here⟩, ⟨given, m, known, own⟩, sound⟩
    obtain ⟨row, found⟩ := taskRow_total positive_ here
    have isSome : (db.message? evidenceId).isSome = true := by
      rw [known]
      rfl
    simp only [setFact, positive, bindable, bindableJson, event, insertFact, insertEvent, requireTask,
      bind_ok, ensure_ok, require_ok, modify_ok]
    exact ⟨(), _, (), db, ⟨by simpa using named, rfl⟩, row, db, found, (), db, ⟨by simpa using given, rfl⟩,
      (), db, ⟨isSome, rfl⟩, (), db, ⟨by rw [known]; simpa using own, rfl⟩, (), db, ⟨valid, rfl⟩, (),
      db, ⟨sound, rfl⟩, (), _, ⟨(), db, ⟨here, rfl⟩, (), db, ⟨isSome, rfl⟩, rfl⟩, rfl⟩

end TaskMemory

namespace Autosave

variable {py : Python} {cfg : Config} {clk : Nat → Clock} {db db' : Db} {taskId : Int}

/-! ## The project task -/

/-- The task a project alias names. -/
def projectTask? (py : Python) (db : Db) (name : Text) : Option TaskRow :=
  (TaskMemory.tasks db).find? fun t =>
    (db.aliasesOf t.id).any fun a =>
      TaskMemory.phrase py.toHost a == TaskMemory.phrase py.toHost (Text.lit "auto:" ++ name)

/-- A task can be made for the project. -/
def ProjectNameable (py : Python) (name : Text) : Prop :=
  TaskMemory.Nameable py.toHost (Text.lit "Autosave: " ++ name) (Text.lit "auto:" ++ name)

theorem project_eq (clock : Clock) (create : Bool) (name : Text) :
    projectTaskByName py clock create name db =
      (match projectTask? py db name with
        | some t => pure (some t.id, false)
        | none =>
            if create then do
              let id ← TaskMemory.createTask py.toHost clock (Text.lit "Autosave: " ++ name) []
                [Text.lit "auto:" ++ name] (.obj [])
              pure (some id, true)
            else pure (none, false) : Tx (Option Int × Bool)) db := rfl

/-- A known project is found. -/
theorem project_known {clock : Clock} {create : Bool} {name : Text} {task : TaskRow}
    (known : projectTask? py db name = some task) :
    projectTaskByName py clock create name db = .ok ((some task.id, false), db) := by
  rw [project_eq, known]
  rfl

/-- Without leave to write an unknown one is not made. -/
theorem project_dry {clock : Clock} {name : Text} (unknown : projectTask? py db name = none) :
    projectTaskByName py clock false name db = .ok ((none, false), db) := by
  rw [project_eq, unknown]
  rfl

/-- An unknown project gets a task exactly when its name can be bound. -/
theorem project_total (clock : Clock) {name : Text} (keys : db.TaskKeys) (attached : db.Attached)
    (unknown : projectTask? py db name = none) :
    (∃ out left, projectTaskByName py clock true name db = .ok (out, left)) ↔
      ProjectNameable py name := by
  have makes : (∃ id left, TaskMemory.createTask py.toHost clock (Text.lit "Autosave: " ++ name) []
      [Text.lit "auto:" ++ name] (.obj []) db = .ok (id, left)) ↔ _ :=
    TaskMemory.createTask_total keys attached
  rw [project_eq, unknown]
  unfold ProjectNameable
  rw [← makes]
  dsimp only
  rw [if_pos rfl]
  constructor
  · rintro ⟨out, left, h⟩
    obtain ⟨id, _, made, _⟩ := bind_ok.mp h
    exact ⟨id, _, made⟩
  · rintro ⟨id, left, made⟩
    exact ⟨_, left, bind_ok.mpr ⟨id, left, made, pure_ok.mpr ⟨rfl, rfl⟩⟩⟩

/-- It is a new task with that alias. -/
theorem project_made {clock : Clock} {name : Text} {out : Option Int × Bool} {left : Db}
    (unknown : projectTask? py db name = none)
    (h : projectTaskByName py clock true name db = .ok (out, left)) :
    ∃ id, out = (some id, true) ∧
      TaskMemory.Alone py.toHost (Text.lit "auto:" ++ name) db left id := by
  rw [project_eq, unknown] at h
  obtain ⟨id, left', made, rest⟩ := bind_ok.mp h
  obtain ⟨rfl, rfl⟩ := pure_ok.mp rest
  exact ⟨id, rfl, TaskMemory.createTask_alone made⟩

/-! ## The batches -/

/-- What the state fact needs: a state with evidence has it in the task, and its value can be
    bound. -/
def State.Storable (cfg : Config) (s : State) (db : Db) (taskId : Int) : Prop :=
  ∀ evidence, s.lastEvidence = some evidence →
    TaskMemory.Factual db taskId (s.payload cfg evidence) evidence

theorem storeState_total {clock : Clock} {s : State} :
    (∃ u left, storeState cfg clock taskId s db = .ok (u, left)) ↔ s.Storable cfg db taskId := by
  unfold storeState State.Storable
  cases s.lastEvidence with
  | none => exact iff_of_true ⟨(), db, rfl⟩ (by simp)
  | some evidence =>
    have named : stateKey.strip ≠ [] := by decide
    have valid : stateKey.strip.valid = true := by decide
    simp only [Option.some.injEq, forall_eq']
    exact TaskMemory.setFact_total named valid

/-- The value of a state can be bound, whatever evidence it names. -/
def State.Sound (cfg : Config) (s : State) : Prop := (s.payload cfg 0).sound = true

/-- What a store keeps for the writers. -/
structure Regular (db : Db) : Prop where
  tasks : db.TaskKeys
  messages : db.MessageKeys
  attached : db.Attached
  numbered : db.Numbered
  told : db.Told
  owned : db.Owned

theorem Regular.of_reachable {host : Host} (h : Reachable host db) : Regular db :=
  ⟨h.taskKeys, h.messageKeys, h.attached, h.numbered, h.told, h.owned⟩

theorem Regular.evolves {allowed : Write → Prop} (h : Regular db) (evolves : Evolves allowed db db') :
    Regular db' :=
  evolves.inv (fun w _ _ legal h => ⟨w.taskKeys legal h.tasks, w.messageKeys legal h.messages,
    w.attached legal h.tasks h.attached, w.numbered legal h.numbered, w.told legal h.told,
    w.owned legal h.tasks h.owned⟩) h

theorem Regular.positive (h : Regular db) (here : (db.task? taskId).isSome) : 1 ≤ taskId := by
  obtain ⟨row, found⟩ := Option.isSome_iff_exists.mp here
  have given := h.numbered.2 row (List.mem_of_find?_eq_some found)
  rw [task?_id found] at given
  omega

theorem Regular.found (h : Regular db) {m : MessageRow} (member : m ∈ db.messages) :
    db.message? m.id = some m :=
  h.messages.keyed.find?_eq member

/-- The writes of `append`. -/
def Write.Telling : Write → Prop
  | .insertMessage _ | .event _ _ _ => True
  | _ => False

theorem append_frame {clock : Clock} {role content : Text} {source : Json} {id : Int}
    (h : TaskMemory.append clock taskId role content source db = .ok (id, db')) :
    Evolves Write.Telling db db' ∧ db'.tasks = db.tasks := by
  have evolves : Evolves Write.Telling db db' := TaskMemory.keeps_append clock (fun _ => trivial)
    (fun _ _ _ => trivial) _ _ _ _ _ _ _ h
  refine ⟨evolves, ?_⟩
  refine evolves.rel (R := fun a b => b.tasks = a.tasks) (fun _ => rfl)
    (fun _ _ _ first second => second.trans first) fun w db telling _ => ?_
  cases w <;> first | rfl | exact telling.elim

/-- A text and a source that can be stored. -/
structure Bindable (content : Text) (source : Json) : Prop where
  spoken : content.strip ≠ []
  valid : content.valid = true
  sound : source.sound = true

/-- A message of a task that is there is appended exactly when it can be bound. -/
theorem append_total (role : Role) {clock : Clock} {content : Text} {source : Json}
    (regular : Regular db) (here : (db.task? taskId).isSome) :
    (∃ id left, TaskMemory.append clock taskId role.text content source db = .ok (id, left)) ↔
      Bindable content source := by
  constructor
  · rintro ⟨id, left, h⟩
    obtain ⟨_, _, _, _, _, _, _, _, passed⟩ := TaskMemory.append_ok clock h
    exact ⟨passed.nonempty, passed.encodable.1, passed.encodable.2⟩
  · rintro ⟨spoken, valid, sound⟩
    refine TaskMemory.append_total clock ⟨?_, spoken, ⟨regular.positive here, here⟩, valid, sound⟩
    rw [role_ofText]
    rfl

/-- What `append` leaves. -/
structure Appended (db left : Db) (taskId id : Int) : Prop where
  regular : Regular left
  tasks : left.tasks = db.tasks
  given : 1 ≤ id
  found : ∃ m, left.message? id = some m ∧ m.taskId = taskId

theorem Appended.here {left : Db} {id : Int} (h : Appended db left taskId id)
    (here : (db.task? taskId).isSome) : (left.task? taskId).isSome := by
  unfold Db.task?
  rw [h.tasks]
  exact here

/-- The state can name the message as its evidence. -/
theorem Appended.storable {left : Db} {id : Int} {s : State} (h : Appended db left taskId id)
    (here : (db.task? taskId).isSome) (last : s.lastEvidence = some id) :
    s.Storable cfg left taskId ↔ s.Sound cfg := by
  constructor
  · intro storable
    exact (storable id last).sound
  · intro sound evidence same
    rw [last] at same
    cases same
    exact ⟨⟨h.regular.positive (h.here here), h.here here⟩, ⟨h.given, h.found⟩, sound⟩

theorem appended {clock : Clock} {role content : Text} {source : Json} {id : Int} {left : Db}
    (regular : Regular db)
    (h : TaskMemory.append clock taskId role content source db = .ok (id, left)) :
    Appended db left taskId id := by
  obtain ⟨evolves, tasks⟩ := append_frame h
  have after := regular.evolves evolves
  obtain ⟨m, messages, same, own, _⟩ := TaskMemory.append_ok clock h
  have member : m ∈ left.messages := by
    rw [messages]
    exact List.mem_append_right _ List.mem_cons_self
  have positive := after.told.2 m member
  rw [same] at positive
  refine ⟨after, tasks, positive, m, ?_, own⟩
  rw [← same]
  exact after.found member

/-- What is prepared is not blank. -/
theorem prepared_spoken {text : Text} {limit : Nat} {p : Prepared}
    (h : prepareText py text limit = some p) (room : 0 < limit) : p.content.strip ≠ [] := by
  unfold prepareText at h
  dsimp only at h
  split at h
  · cases h
  · rename_i spoken
    rw [← Option.some.inj h]
    exact Text.strip_take (fun empty => spoken (by rw [empty]; rfl)) room

/-! ### A turn -/

/-- The state `save_turn` records, before its evidence is known. -/
def State.turned (cfg : Config) (s : State) (key digest : Text) : State :=
  { s with
    seen := lastOf cfg.seenCap (s.seen ++ [.str key])
    hashes := lastOf cfg.hashCap (s.hashes ++ [.str digest]) }

/-- The batch of `save_turn` goes through exactly when the prompt, its source and the state can be
    bound. -/
theorem commitTurn_total {t : Turn} {s : State} {p : Prepared} (regular : Regular db)
    (here : (db.task? taskId).isSome) :
    (∃ r left, commitTurn cfg clk t taskId s p db = .ok (r, left)) ↔
      Bindable p.content (t.source p.truncated) ∧ (s.turned cfg t.key p.digest).Sound cfg := by
  unfold commitTurn
  constructor
  · rintro ⟨r, left, h⟩
    obtain ⟨id, db₁, put, h⟩ := bind_ok.mp h
    obtain ⟨_, _, stored, _⟩ := bind_ok.mp h
    have bindable := (append_total .user regular here).mp ⟨id, db₁, put⟩
    have storable : State.Storable cfg { s.turned cfg t.key p.digest with lastEvidence := some id } db₁
        taskId := storeState_total.mp ⟨_, _, stored⟩
    have sound := ((appended regular put).storable here rfl).mp storable
    exact ⟨bindable, sound⟩
  · rintro ⟨bindable, sound⟩
    obtain ⟨id, db₁, put⟩ := (append_total .user regular here).mpr bindable
    have storable : State.Storable cfg { s.turned cfg t.key p.digest with lastEvidence := some id } db₁
        taskId := ((appended regular put).storable here rfl).mpr sound
    obtain ⟨_, db₂, stored⟩ := storeState_total.mpr storable
    exact ⟨_, db₂, bind_ok.mpr ⟨id, db₁, put, bind_ok.mpr ⟨(), db₂, stored, rfl⟩⟩⟩

/-! ### A pass -/

/-- The digests a pass leaves. -/
def hashed (cfg : Config) (hashes : List Json) (rows : List Row) : List Json :=
  rows.foldl (fun hashes r => lastOf cfg.hashCap (hashes ++ [.str r.prepared.digest])) hashes

/-- What the rows of a pass leave. -/
structure RowsStored (cfg : Config) (s s' : State) (rows : List Row) (db left : Db) (taskId : Int) :
    Prop where
  regular : Regular left
  tasks : left.tasks = db.tasks
  state : ∃ last, s' = { s with hashes := hashed cfg s.hashes rows, lastEvidence := last } ∧
    ((rows = [] ∧ last = s.lastEvidence ∧ left = db) ∨
      rows ≠ [] ∧ ∃ id, last = some id ∧ 1 ≤ id ∧
        ∃ m, left.message? id = some m ∧ m.taskId = taskId)

/-- The rows of a pass are stored exactly when each can be bound. -/
theorem appendRows_total {appendClock : Nat → Clock} {t : Transcript} {s : State} {rows : List Row}
    (regular : Regular db) (here : (db.task? taskId).isSome) :
    (∃ s' left, appendRows cfg appendClock t taskId s rows db = .ok (s', left)) ↔
      ∀ r ∈ rows, Bindable r.prepared.content (t.source r) := by
  induction rows generalizing s db with
  | nil => exact iff_of_true ⟨s, db, rfl⟩ (by simp)
  | cons r rest ih =>
    unfold appendRows
    rw [List.forall_mem_cons]
    constructor
    · rintro ⟨s', left, h⟩
      obtain ⟨id, db₁, put, later⟩ := bind_ok.mp h
      have stored := appended regular put
      exact ⟨(append_total r.role regular here).mp ⟨id, db₁, put⟩,
        (ih stored.regular (stored.here here)).mp ⟨s', left, later⟩⟩
    · rintro ⟨first, others⟩
      obtain ⟨id, db₁, put⟩ := (append_total r.role regular here).mpr first
      have stored := appended regular put
      obtain ⟨s', left, later⟩ := (ih stored.regular (stored.here here)).mpr others
      exact ⟨s', left, bind_ok.mpr ⟨id, db₁, put, later⟩⟩

theorem appendRows_stored {appendClock : Nat → Clock} {t : Transcript} {s s' : State}
    {rows : List Row} {left : Db} (regular : Regular db)
    (h : appendRows cfg appendClock t taskId s rows db = .ok (s', left)) :
    RowsStored cfg s s' rows db left taskId := by
  induction rows generalizing s db with
  | nil =>
    obtain ⟨rfl, rfl⟩ := pure_ok.mp h
    exact ⟨regular, rfl, s'.lastEvidence, rfl, .inl ⟨rfl, rfl, rfl⟩⟩
  | cons r rest ih =>
    unfold appendRows at h
    obtain ⟨id, db₁, put, later⟩ := bind_ok.mp h
    have stored := appended regular put
    obtain ⟨after, tasks, last, state, ended⟩ := ih stored.regular later
    refine ⟨after, tasks.trans stored.tasks, last, state, .inr ⟨List.cons_ne_nil r rest, ?_⟩⟩
    rcases ended with ⟨_, same, rfl⟩ | ⟨_, other⟩
    · exact ⟨id, same, stored.given, stored.found⟩
    · exact other

/-- The state a pass records, before its evidence is known. -/
def State.passed (cfg : Config) (s : State) (t : Transcript) (f : WireFile) (start : Int)
    (done : Scan) : State :=
  { s with
    hashes := hashed cfg s.hashes done.rows
    cursors :=
      if start < done.scannedTo then Json.assign s.cursors (cursorKey t.path) (cursorOf f done)
      else s.cursors }

/-- What the batch of a pass needs. -/
structure PassStorable (cfg : Config) (t : Transcript) (f : WireFile) (s : State) (start : Int)
    (done : Scan) (db : Db) (taskId : Int) : Prop where
  rows : ∀ r ∈ done.rows, Bindable r.prepared.content (t.source r)
  sound : done.rows ≠ [] → (s.passed cfg t f start done).Sound cfg
  storable : done.rows = [] → (s.passed cfg t f start done).Storable cfg db taskId

/-- The batch of a pass goes through exactly when its rows and its state can be bound and the
    evidence of a state without new rows is there. -/
theorem commitPass_total {t : Transcript} {f : WireFile} {s : State} {start : Int} {reset : Bool}
    {done : Scan} (regular : Regular db) (here : (db.task? taskId).isSome) :
    (∃ r left, commitPass cfg clk t taskId s f start reset done db = .ok (r, left)) ↔
      PassStorable cfg t f s start done db taskId := by
  have kept : ∀ {s' : State} {left : Db}, RowsStored cfg s s' done.rows db left taskId →
      (State.Storable cfg
          (if start < done.scannedTo then
            { s' with cursors := Json.assign s'.cursors (cursorKey t.path) (cursorOf f done) }
          else s') left taskId ↔
        (done.rows ≠ [] → (s.passed cfg t f start done).Sound cfg) ∧
          (done.rows = [] → (s.passed cfg t f start done).Storable cfg db taskId)) := by
    rintro s' left ⟨after, tasks, last, rfl, ended⟩
    have same : (if start < done.scannedTo then
        { ({ s with hashes := hashed cfg s.hashes done.rows, lastEvidence := last } : State) with
          cursors := Json.assign s.cursors (cursorKey t.path) (cursorOf f done) }
        else ({ s with hashes := hashed cfg s.hashes done.rows, lastEvidence := last } : State)) =
          { s.passed cfg t f start done with lastEvidence := last } := by
      unfold State.passed
      split <;> rfl
    rw [same]
    rcases ended with ⟨none_, rfl, rfl⟩ | ⟨some_, id, rfl, given, found⟩
    · exact ⟨fun storable => ⟨fun some_ => absurd none_ some_, fun _ => storable⟩,
        fun both => both.2 none_⟩
    · have stored : Appended db left taskId id := ⟨after, tasks, given, found⟩
      rw [stored.storable here rfl]
      exact ⟨fun sound => ⟨fun _ => sound, fun none_ => absurd none_ some_⟩, fun both => both.1 some_⟩
  unfold commitPass
  constructor
  · rintro ⟨r, left, h⟩
    obtain ⟨s', db₁, rows, h⟩ := bind_ok.mp h
    obtain ⟨_, _, recorded, _⟩ := bind_ok.mp h
    have both := (kept (appendRows_stored regular rows)).mp (storeState_total.mp ⟨_, _, recorded⟩)
    exact ⟨(appendRows_total regular here).mp ⟨s', db₁, rows⟩, both.1, both.2⟩
  · rintro ⟨bindable, sound, storable⟩
    obtain ⟨s', db₁, rows⟩ := (appendRows_total (s := s) regular here).mpr bindable
    obtain ⟨_, db₂, recorded⟩ := storeState_total.mpr
      ((kept (appendRows_stored regular rows)).mpr ⟨sound, storable⟩)
    exact ⟨_, db₂, bind_ok.mpr ⟨s', db₁, rows, bind_ok.mpr ⟨(), db₂, recorded, rfl⟩⟩⟩

end Autosave

end Cmpath
