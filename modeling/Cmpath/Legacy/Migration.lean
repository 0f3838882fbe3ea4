import Cmpath.Legacy.Writing
import Mathlib.Data.List.Pairwise

/-!
# What the migration makes of a checkpoint

The purpose of `migrate_v02`, told of the checkpoint alone: its paths, the messages of each, when
it can be migrated (`Migratable`) and what a faithful image of it in a store is (`Image`). The
migration succeeds exactly on what can be migrated and leaves such an image (`migrateV02_exact`):
the invariant of the loop is `Migrated`, kept by each path (`Migrated.step`).
-/

namespace Cmpath
open Lib Lib.Txn

namespace Legacy

open Autosave (Regular)

variable {τ : Type}

/-! ## A checkpoint -/

section Checkpoint

variable [LinearOrder τ]

/-- A path, live or evicted. -/
def Checkpoint.path? (c : Checkpoint τ) (pid : Text) : Option (Path τ) :=
  (c.paths.get? pid).or ((c.evictedRows.find? (·.id == pid)).map (·.record))

/-- The messages of a path: those it was evicted with, or those its segments hold. -/
def Checkpoint.owned (c : Checkpoint τ) (pid : Text) : List (Message τ) :=
  match c.evictedRows.find? (·.id == pid) with
  | some row => row.messages
  | none =>
      match c.paths.get? pid with
      | some rec_ => c.log.filter fun m => rec_.segments.any (·.holds m)
      | none => []

/-- What the task of a path is told. -/
def Checkpoint.transcript (c : Checkpoint τ) (stamp : τ → Json) (pid : Text) :
    List (Role × Text × Json) :=
  Legacy.told stamp pid (c.owned pid) ++
    match c.path? pid with
    | some rec_ => rec_.waypointEvidence pid
    | none => []

/-- `q` is needed by `p`. -/
def Checkpoint.Needs (c : Checkpoint τ) (q p : Text) : Prop :=
  ∃ rec_, c.path? p = some rec_ ∧ q ∈ rec_.dependsOn

/-- No timestamp belongs to both paths. -/
def Checkpoint.Apart (c : Checkpoint τ) (p q : Text) : Prop :=
  ∀ m ∈ c.owned p, ∀ n ∈ c.owned q, m.ts ≠ n.ts

/-- The texts and the values of a path can be stored. -/
structure Checkpoint.Fits (host : Host) (stamp : τ → Json) (c : Checkpoint τ) (pid : Text)
    (rec_ : Path τ) : Prop where
  named : Named host (rec_.title pid) pid (orObject rec_.snapshot)
  evidence : ∀ e ∈ c.transcript stamp pid, Storable e

/-- A checkpoint whose paths can be migrated: no path they depend on is missing, they depend on each
    other in no cycle, no timestamp belongs to two of them, and the active one is there. -/
structure Coherent (host : Host) (stamp : τ → Json) (c : Checkpoint τ) : Prop where
  closed : ∀ p q, c.Needs q p → (c.path? q).isSome
  acyclic : ∀ p, ¬ Relation.TransGen c.Needs p p
  apart : ∀ p q, p ≠ q → c.Apart p q
  fits : ∀ p rec_, c.path? p = some rec_ → c.Fits host stamp p rec_
  active : c.activeId = [] ∨ (c.path? c.activeId).isSome

/-- A checkpoint that can be migrated. -/
structure Migratable (host : Host) (stamp : τ → Json) (c : Checkpoint τ) : Prop
    extends Coherent host stamp c where
  version : c.version = 2
  distinct : (c.paths.keys ++ c.evictedRows.map (·.id)).Nodup

/-- The status the task of a path ends with. -/
def Checkpoint.status (c : Checkpoint τ) (pid : Text) (rec_ : Path τ) : TaskStatus :=
  if c.activeId ≠ [] ∧ c.activeId = pid then .opened
  else if rec_.hidden then .archived else .opened

/-- A store that is the image of a checkpoint under a mapping of its paths to tasks. -/
structure Image (stamp : τ → Json) (c : Checkpoint τ) (mapping : List (Text × Int)) (db : Db) : Prop where
  paths : (mapping.map Prod.fst).Nodup ∧ ∀ p, p ∈ mapping.map Prod.fst ↔ (c.path? p).isSome
  tasks : db.tasks.map (·.id) = mapping.map Prod.snd ∧ (mapping.map Prod.snd).Nodup
  task : ∀ p id, (p, id) ∈ mapping → ∃ rec_ title row, c.path? p = some rec_ ∧
    rec_.title p = .str title ∧ db.task? id = some row ∧ row.title = title.strip ∧
      row.snapshot = orObject rec_.snapshot ∧ row.status = c.status p rec_
  parents : ∀ child parent, ⟨child, parent⟩ ∈ db.dependencies ↔
    ∃ p q, (p, child) ∈ mapping ∧ c.Needs q p ∧ (q, parent) ∈ mapping
  evidence : ∀ p id, (p, id) ∈ mapping →
    (db.messages.filter (·.taskId == id)).map Legacy.evidence = c.transcript stamp p
  only : ∀ m ∈ db.messages, ∃ p, (p, m.taskId) ∈ mapping
  active : ∀ id, db.runtimeState.activeTask = some id ↔ c.activeId ≠ [] ∧ (c.activeId, id) ∈ mapping

end Checkpoint

/-! ## The paths the migration works on -/

section Archive

variable {c : Checkpoint τ} {a b : Archive τ} {rows : List (EvictedRow τ)}

/-- What evicted rows add to the paths. -/
structure Archived (a b : Archive τ) (rows : List (EvictedRow τ)) : Prop where
  keys : b.records.keys = a.records.keys ++ rows.map (·.id)
  record : ∀ p, b.records.get? p = (a.records.get? p).or ((rows.find? (·.id == p)).map (·.record))
  payload : ∀ p, b.payloads.get? p =
    ((rows.find? (·.id == p)).map (·.messages)).or (a.payloads.get? p)

theorem Archived.refl (a : Archive τ) : Archived a a [] :=
  ⟨(List.append_nil _).symm, fun p => by simp, fun p => by simp⟩

theorem add_ok {row : EvictedRow τ} : a.add row = .ok b ↔
    row.id ∉ a.records.keys ∧
      b = ⟨a.records.set row.id row.record, a.payloads.set row.id row.messages⟩ := by
  unfold Archive.add
  by_cases known : row.id ∈ a.records.keys
  · rw [if_pos known]
    simp [known]
  · rw [if_neg known, Except.ok.injEq]
    simp [known, eq_comm]

/-- One row more in front. -/
theorem Archived.cons {row : EvictedRow τ} (fresh : row.id ∉ a.records.keys)
    (h : Archived ⟨a.records.set row.id row.record, a.payloads.set row.id row.messages⟩ b rows)
    (other : row.id ∉ rows.map (·.id)) : Archived a b (row :: rows) := by
  have absent : a.records.get? row.id = none := by
    rw [← Option.not_isSome_iff_eq_none, OrderedDict.get?_isSome]
    exact fresh
  have last : rows.find? (·.id == row.id) = none := by
    rw [List.find?_eq_none]
    intro r member same
    exact other (List.mem_map.mpr ⟨r, member, by simpa using same⟩)
  refine ⟨?_, fun p => ?_, fun p => ?_⟩
  · rw [h.keys, OrderedDict.keys, OrderedDict.entries_set _ fresh]
    simp [OrderedDict.keys]
  · rw [h.record p, OrderedDict.get?_set]
    by_cases same : p = row.id
    · subst same
      rw [if_pos rfl, absent, List.find?_cons_of_pos (by simp)]
      rfl
    · rw [if_neg same, List.find?_cons_of_neg (by simpa using Ne.symm same)]
  · rw [h.payload p, OrderedDict.get?_set]
    by_cases same : p = row.id
    · subst same
      rw [if_pos rfl, last, List.find?_cons_of_pos (by simp)]
      rfl
    · rw [if_neg same, List.find?_cons_of_neg (by simpa using Ne.symm same)]

/-- The evicted rows are added exactly where no identifier occurs twice. -/
theorem foldlM_add : ((∃ b, rows.foldlM Archive.add a = .ok b) ↔
      (a.records.keys ++ rows.map (·.id)).Nodup) ∧
    ∀ b, rows.foldlM Archive.add a = .ok b → Archived a b rows := by
  induction rows generalizing a with
  | nil =>
    refine ⟨iff_of_true ⟨a, rfl⟩ ?_, fun b run => ?_⟩
    · rw [List.map_nil, List.append_nil]
      exact a.records.distinct
    · cases run
      exact .refl a
  | cons row rows ih =>
    let next : Archive τ := ⟨a.records.set row.id row.record, a.payloads.set row.id row.messages⟩
    have run_iff : ∀ b, (row :: rows).foldlM Archive.add a = .ok b ↔
        row.id ∉ a.records.keys ∧ rows.foldlM Archive.add next = .ok b := by
      intro b
      rw [List.foldlM_cons, except_bind_ok]
      constructor
      · rintro ⟨mid, first, rest⟩
        obtain ⟨fresh, rfl⟩ := add_ok.mp first
        exact ⟨fresh, rest⟩
      · rintro ⟨fresh, rest⟩
        exact ⟨next, add_ok.mpr ⟨fresh, rfl⟩, rest⟩
    have keys (fresh : row.id ∉ a.records.keys) :
        next.records.keys ++ rows.map (·.id) = a.records.keys ++ (row :: rows).map (·.id) := by
      show (a.records.set row.id row.record).keys ++ _ = _
      rw [OrderedDict.keys, OrderedDict.entries_set _ fresh]
      simp [OrderedDict.keys]
    obtain ⟨total, shape⟩ := ih (a := next)
    refine ⟨?_, fun b run => ?_⟩
    · simp only [run_iff]
      constructor
      · rintro ⟨b, fresh, rest⟩
        rw [← keys fresh]
        exact total.mp ⟨b, rest⟩
      · intro nodup
        have fresh : row.id ∉ a.records.keys := by
          have apart := (List.nodup_append'.mp nodup).2.2
          exact fun known => apart known (by simp)
        obtain ⟨b, rest⟩ := total.mpr (by rw [keys fresh]; exact nodup)
        exact ⟨b, fresh, rest⟩
    · obtain ⟨fresh, rest⟩ := (run_iff b).mp run
      have nodup := total.mp ⟨b, rest⟩
      refine .cons fresh (shape b rest) fun listed => ?_
      have apart := (List.nodup_append'.mp nodup).2.2
      have here : row.id ∈ next.records.keys := by
        show row.id ∈ (a.records.set row.id row.record).keys
        rw [OrderedDict.keys, OrderedDict.entries_set _ fresh]
        simp
      exact apart here listed

theorem archive_iff : (∃ a, c.archive = .ok a) ↔
    (c.paths.keys ++ c.evictedRows.map (·.id)).Nodup :=
  foldlM_add.1

variable [LinearOrder τ]

/-- The archive of a checkpoint has its paths and their messages. -/
structure Holds (c : Checkpoint τ) (a : Archive τ) : Prop where
  path : ∀ p, a.records.get? p = c.path? p
  owned : ∀ p rec_, c.path? p = some rec_ → c.messagesOf a p rec_ = c.owned p

theorem archive_holds (h : c.archive = .ok a) : Holds c a := by
  have nodup := archive_iff.mp ⟨a, h⟩
  obtain ⟨_, record, payload⟩ := foldlM_add.2 a h
  refine ⟨record, fun p rec_ found => ?_⟩
  have given := payload p
  unfold Checkpoint.messagesOf Checkpoint.owned
  rw [given]
  cases evicted : c.evictedRows.find? (·.id == p) with
  | some row => rfl
  | none =>
    rw [Checkpoint.path?, evicted, Option.map_none, Option.or_none] at found
    rw [found]
    rfl

end Archive

/-! ## One path -/

section Path

theorem mapM_some {α β : Type} {f : α → Option β} {xs : List α} {ys : List β}
    (h : xs.mapM f = some ys) : (∀ x ∈ xs, (f x).isSome) ∧ ∀ y, y ∈ ys ↔ ∃ x ∈ xs, f x = some y := by
  induction xs generalizing ys with
  | nil =>
    simp only [List.mapM_nil, Option.pure_def, Option.some.injEq] at h
    subst h
    simp
  | cons x xs ih =>
    simp only [List.mapM_cons, Option.pure_def, Option.bind_eq_bind, Option.bind_eq_some_iff,
      Option.some.injEq] at h
    obtain ⟨first, here, rest, later, rfl⟩ := h
    obtain ⟨all, listed⟩ := ih later
    refine ⟨List.forall_mem_cons.mpr ⟨by rw [here]; rfl, all⟩, fun y => ?_⟩
    rw [List.mem_cons, listed, List.exists_mem_cons_iff, here, Option.some.injEq, eq_comm]

theorem mapM_total {α β : Type} {f : α → Option β} {xs : List α} (h : ∀ x ∈ xs, (f x).isSome) :
    ∃ ys, xs.mapM f = some ys := by
  induction xs with
  | nil => exact ⟨[], rfl⟩
  | cons x xs ih =>
    obtain ⟨first, here⟩ := Option.isSome_iff_exists.mp (h x List.mem_cons_self)
    obtain ⟨rest, later⟩ := ih fun z member => h z (List.mem_cons_of_mem _ member)
    exact ⟨first :: rest, by rw [List.mapM_cons, here, later]; rfl⟩

variable [LinearOrder τ] {host : Host} {clk : Text → Nat → Clock} {stamp : τ → Json} {c : Checkpoint τ}
  {a : Archive τ} {s s' : Progress τ} {db db' : Db} {pid : Text} {rec_ : Path τ}

/-- What the migration of one path does. -/
structure Placed (stamp : τ → Json) (c : Checkpoint τ) (pid : Text) (rec_ : Path τ)
    (parents : List Int) (id : Int) (s s' : Progress τ) (db db' : Db) : Prop where
  next : id = db.sequence.tasks + 1
  mapping : s'.mapping = s.mapping.set pid id
  claimed : Claimed pid (c.owned pid) s.owners s'.owners
  ids : db'.tasks.map (·.id) = db.tasks.map (·.id) ++ [id]
  others : ∀ other, other ≠ id → db'.task? other = db.task? other
  row : ∃ title row, rec_.title pid = .str title ∧ db'.task? id = some row ∧ row.title = title.strip ∧
    row.snapshot = orObject rec_.snapshot ∧
      row.status = if rec_.hidden then .archived else .opened
  dependencies : db'.dependencies = db.dependencies ++ parents.dedup.map fun p => ⟨id, p⟩
  messages : ∃ rows, db'.messages = db.messages ++ rows ∧
    rows.map evidence = c.transcript stamp pid ∧ ∀ m ∈ rows, m.taskId = id
  runtimeState : db'.runtimeState = db.runtimeState
  evolves : Evolves Write.Any db db'

/-- A path was migrated: its texts fit, its messages are nobody else's, its parents are tasks. -/
theorem migratePath_ok (holds : Holds c a) (regular : Regular db) (found : c.path? pid = some rec_)
    (h : migratePath host clk stamp c a s pid db = .ok (s', db')) :
    ∃ parents id, rec_.dependsOn.mapM s.mapping.get? = some parents ∧
      Placed stamp c pid rec_ parents id s s' db db' ∧ Claimable pid s.owners (c.owned pid) ∧
        c.Fits host stamp pid rec_ := by
  unfold migratePath at h
  rw [holds.path, found] at h
  cases looked : rec_.dependsOn.mapM s.mapping.get? with
  | none => simp only [looked, fail_ok] at h
  | some parents =>
  simp only [looked, bind_ok] at h
  obtain ⟨id, db₁, made, owners, db₂, messages, _, db₃, waypoint, last⟩ := h
  rw [holds.owned pid rec_ found] at messages
  obtain ⟨named, there, title, titled, made⟩ := created_ok made
  obtain ⟨told, claimable, claimed, stored⟩ := migrateMessages_ok messages
  obtain ⟨waypointed, storedWaypoint⟩ := migrateWaypoint_ok waypoint
  have transcript : c.transcript stamp pid =
      Legacy.told stamp pid (c.owned pid) ++ rec_.waypointEvidence pid := by
    unfold Checkpoint.transcript
    rw [found]
  have all := told.trans waypointed
  rw [← transcript] at all
  obtain ⟨rows, listed, same, own⟩ := all.rows
  obtain ⟨tasks, dependencies, runtime⟩ := telling_frame all.evolves
  obtain ⟨row, created, rowId, rowTitle, rowStatus, rowSnapshot⟩ := made.tasks
  have fresh : db.task? id = none := by
    rw [Db.task?, List.find?_eq_none]
    intro r member same
    have given := regular.tasks.given r member
    have next := made.next
    have : r.id = id := by simpa using same
    omega
  have here : db₃.task? id = some row := by
    unfold Db.task? at fresh ⊢
    rw [tasks, created, List.find?_append, fresh, List.find?_cons_of_pos (by simpa using rowId)]
    rfl
  have apart : ∀ other, other ≠ id → db₃.task? other = db.task? other := by
    intro other ne
    unfold Db.task?
    rw [tasks, created, List.find?_append, List.find?_cons_of_neg (by simpa [rowId] using Ne.symm ne)]
    simp
  have ids : db₃.tasks.map (·.id) = db.tasks.map (·.id) ++ [id] := by
    rw [tasks, created, List.map_append, List.map_singleton, rowId]
  have fits : c.Fits host stamp pid rec_ := by
    refine ⟨named, fun e member => ?_⟩
    rw [transcript] at member
    exact (List.mem_append.mp member).elim (stored e) (storedWaypoint e)
  refine ⟨parents, id, rfl, ?_, claimable, fits⟩
  by_cases hidden : rec_.hidden = true
  · rw [if_pos hidden] at last
    obtain ⟨_, _, filed, done⟩ := bind_ok.mp last
    obtain ⟨rfl, rfl⟩ := pure_ok.mp done
    obtain ⟨moved, idle⟩ := archive_moved filed
    obtain ⟨before, after, was, is, keptTitle, keptSnapshot, status⟩ := moved.task
    rw [here] at was
    cases was
    exact ⟨made.next, rfl, claimed, moved.ids.trans ids, fun other ne => (moved.others other ne).trans
      (apart other ne), ⟨title, after, titled, is, keptTitle.trans rowTitle, keptSnapshot.trans rowSnapshot,
        by rw [if_pos hidden]; exact status⟩, by rw [moved.dependencies, dependencies, made.dependencies],
      ⟨rows, by rw [moved.messages, listed, made.messages], same, own⟩,
      by rw [idle, runtime, made.runtimeState], (made.evolves.trans all.evolves.any).trans moved.evolves⟩
  · rw [if_neg hidden] at last
    obtain ⟨rfl, rfl⟩ := pure_ok.mp last
    exact ⟨made.next, rfl, claimed, ids, apart, ⟨title, row, titled, here, rowTitle, rowSnapshot,
      by rw [if_neg hidden]; exact rowStatus⟩, by rw [dependencies, made.dependencies],
      ⟨rows, by rw [listed, made.messages], same, own⟩, by rw [runtime, made.runtimeState], made.evolves.trans all.evolves.any⟩

variable (clk) in
theorem migratePath_total (holds : Holds c a) (regular : Regular db) (edged : Edged db)
    (found : c.path? pid = some rec_) (fits : c.Fits host stamp pid rec_)
    (claimable : Claimable pid s.owners (c.owned pid))
    (parents : ∀ q ∈ rec_.dependsOn, ∃ id, s.mapping.get? q = some id ∧ (db.task? id).isSome)
    (idle : db.runtimeState.activeTask = none) :
    ∃ s' db', migratePath host clk stamp c a s pid db = .ok (s', db') := by
  obtain ⟨ids, looked⟩ := @mapM_total _ _ s.mapping.get? rec_.dependsOn fun q need => by
    obtain ⟨id, there, _⟩ := parents q need
    rw [there]
    rfl
  have known : ∀ p ∈ ids, (db.task? p).isSome := by
    intro p member
    obtain ⟨q, need, same⟩ := ((mapM_some looked).2 p).mp member
    obtain ⟨id, there, here⟩ := parents q need
    rw [there] at same
    cases same
    exact here
  have transcript : c.transcript stamp pid =
      Legacy.told stamp pid (c.owned pid) ++ rec_.waypointEvidence pid := by
    unfold Checkpoint.transcript
    rw [found]
  have stored := fits.evidence
  rw [transcript] at stored
  obtain ⟨id, db₁, create⟩ := created_total (clk pid 0) regular edged fits.named known
  obtain ⟨_, _, _, _, made⟩ := created_ok create
  have regular₁ := regular.evolves made.evolves
  obtain ⟨owners, db₂, tell⟩ := migrateMessages_total (fun n => clk pid (n + 3)) regular₁
    made.here claimable fun e member => stored e (List.mem_append_left _ member)
  obtain ⟨told, _⟩ := migrateMessages_ok tell
  have regular₂ := regular₁.evolves told.evolves
  have here₂ : (db₂.task? id).isSome := by
    rw [task?_of_tasks (telling_frame told.evolves).1]
    exact made.here
  obtain ⟨db₃, waypoint⟩ := migrateWaypoint_total (clk pid 1) regular₂ here₂
    fun e member => stored e (List.mem_append_right _ member)
  obtain ⟨waypointed, _⟩ := migrateWaypoint_ok waypoint
  have here₃ : (db₃.task? id).isSome := by
    rw [task?_of_tasks (telling_frame waypointed.evolves).1]
    exact here₂
  unfold migratePath
  rw [holds.path, found]
  simp only [looked]
  rw [bind_of_ok create, holds.owned pid rec_ found, bind_of_ok tell, bind_of_ok waypoint]
  by_cases hidden : rec_.hidden = true
  · have calm : db₃.runtimeState.activeTask ≠ some id := by
      rw [(telling_frame waypointed.evolves).2.2, (telling_frame told.evolves).2.2, made.runtimeState, idle]
      intro same
      cases same
    obtain ⟨db₄, filed⟩ := archive_total (clk pid 2) (regular₂.evolves waypointed.evolves) here₃ calm
    rw [if_pos hidden, bind_of_ok filed]
    exact ⟨_, db₄, rfl⟩
  · rw [if_neg hidden]
    exact ⟨_, db₃, rfl⟩

end Path


/-! ## The loop -/

section Loop

variable [LinearOrder τ] {host : Host} {clk : Text → Nat → Clock} {stamp : τ → Json} {c : Checkpoint τ}
  {a : Archive τ} {s s' : Progress τ} {db db' : Db} {pid : Text} {rec_ : Path τ} {done : List Text}

/-- What holds once the paths in `done` have been migrated. -/
structure Migrated (stamp : τ → Json) (c : Checkpoint τ) (done : List Text) (s : Progress τ) (db : Db) :
    Prop where
  regular : Regular db
  keys : s.mapping.keys = done
  closed : ∀ p ∈ done, ∀ q, c.Needs q p → q ∈ done
  tasks : db.tasks.map (·.id) = s.mapping.entries.map Prod.snd
  task : ∀ p id, (p, id) ∈ s.mapping.entries → ∃ rec_ title row, c.path? p = some rec_ ∧
    rec_.title p = .str title ∧ db.task? id = some row ∧ row.title = title.strip ∧
      row.snapshot = orObject rec_.snapshot ∧
        row.status = if rec_.hidden then .archived else .opened
  parents : ∀ child parent, ⟨child, parent⟩ ∈ db.dependencies ↔
    ∃ p q, (p, child) ∈ s.mapping.entries ∧ c.Needs q p ∧ (q, parent) ∈ s.mapping.entries
  evidence : ∀ p id, (p, id) ∈ s.mapping.entries →
    (db.messages.filter (·.taskId == id)).map Legacy.evidence = c.transcript stamp p
  only : ∀ m ∈ db.messages, ∃ p, (p, m.taskId) ∈ s.mapping.entries
  idle : db.runtimeState.activeTask = none
  owners : ∀ t p, s.owners.get? t = some p ↔ p ∈ done ∧ ∃ m ∈ c.owned p, m.ts = t

namespace Migrated

/-- A mapped identifier is one of a task that is there. -/
theorem here (h : Migrated stamp c done s db) {p : Text} {id : Int} (mapped : (p, id) ∈ s.mapping.entries) :
    (db.task? id).isSome := by
  obtain ⟨_, _, row, _, _, found, _⟩ := h.task p id mapped
  rw [found]
  rfl

theorem given (h : Migrated stamp c done s db) {p : Text} {id : Int}
    (mapped : (p, id) ∈ s.mapping.entries) : id ≤ db.sequence.tasks :=
  h.regular.tasks.task_given (h.here mapped)

theorem edged (h : Migrated stamp c done s db) : Edged db := by
  intro d member
  obtain ⟨p, _, mapped, _⟩ := (h.parents d.child d.parent).mp member
  exact h.given mapped

theorem mem_done (h : Migrated stamp c done s db) {p : Text} {id : Int}
    (mapped : (p, id) ∈ s.mapping.entries) : p ∈ done := by
  rw [← h.keys]
  exact List.mem_map.mpr ⟨(p, id), mapped, rfl⟩

/-- The messages of a new path may be claimed where no path before it has one of their timestamps. -/
theorem claimable_iff (h : Migrated stamp c done s db) (fresh : pid ∉ done) :
    Claimable pid s.owners (c.owned pid) ↔ ∀ p ∈ done, c.Apart p pid := by
  constructor
  · intro claimable p old m member n own same
    have owner := claimable n own p ((h.owners n.ts p).mpr ⟨old, m, member, same⟩)
    exact fresh (owner ▸ old)
  · intro apart m member p owned
    obtain ⟨old, n, own, same⟩ := (h.owners m.ts p).mp owned
    exact absurd same (apart p old n own m member)

/-- A path is migrated after the ones before. -/
theorem step {parents : List Int} {id : Int} (h : Migrated stamp c done s db) (fresh : pid ∉ done)
    (found : c.path? pid = some rec_) (looked : rec_.dependsOn.mapM s.mapping.get? = some parents)
    (placed : Placed stamp c pid rec_ parents id s s' db db')
    (claimable : Claimable pid s.owners (c.owned pid)) : Migrated stamp c (done ++ [pid]) s' db' := by
  have entries : s'.mapping.entries = s.mapping.entries ++ [(pid, id)] := by
    rw [placed.mapping]
    exact OrderedDict.entries_set _ (by rw [h.keys]; exact fresh)
  have mapped : ∀ {p i}, (p, i) ∈ s'.mapping.entries ↔ (p, i) ∈ s.mapping.entries ∨ p = pid ∧ i = id := by
    intro p i
    rw [entries, List.mem_append, List.mem_singleton, Prod.mk.injEq]
  have other : ∀ {p i}, (p, i) ∈ s.mapping.entries → i ≠ id := by
    intro p i old same
    have given := h.given old
    have next := placed.next
    omega
  have needs : ∀ {q}, c.Needs q pid ↔ q ∈ rec_.dependsOn := by
    intro q
    constructor
    · rintro ⟨r, same, need⟩
      rw [found] at same
      cases same
      exact need
    · exact fun need => ⟨rec_, found, need⟩
  obtain ⟨present, listed⟩ := mapM_some looked
  have before : ∀ {q}, c.Needs q pid → q ∈ done := by
    intro q need
    have there := present q (needs.mp need)
    rw [OrderedDict.get?_isSome, h.keys] at there
    exact there
  obtain ⟨rows, messages, told, own⟩ := placed.messages
  refine ⟨h.regular.evolves placed.evolves, ?keys, ?closed, ?tasks, ?task, ?parents, ?evidence, ?only,
    placed.runtimeState ▸ h.idle, ?owners⟩
  case keys =>
    rw [OrderedDict.keys, entries, List.map_append, ← h.keys]
    rfl
  case closed =>
    intro p member q need
    rcases List.mem_append.mp member with old | new
    · exact List.mem_append_left _ (h.closed p old q need)
    · rw [List.mem_singleton.mp new] at need
      exact List.mem_append_left _ (before need)
  case tasks =>
    rw [placed.ids, entries, List.map_append, h.tasks]
    rfl
  case task =>
    intro p i member
    rcases mapped.mp member with old | ⟨rfl, rfl⟩
    · rw [placed.others i (other old)]
      exact h.task p i old
    · obtain ⟨title, row, titled, there, rest⟩ := placed.row
      exact ⟨rec_, title, row, found, titled, there, rest⟩
  case parents =>
    intro child parent
    rw [placed.dependencies, List.mem_append, h.parents]
    constructor
    · rintro (⟨p, q, left, need, right⟩ | new)
      · exact ⟨p, q, mapped.mpr (.inl left), need, mapped.mpr (.inl right)⟩
      · obtain ⟨parent', member, same⟩ := List.mem_map.mp new
        cases same
        obtain ⟨q, need, there⟩ := (listed _).mp (List.mem_dedup.mp member)
        exact ⟨pid, q, mapped.mpr (.inr ⟨rfl, rfl⟩), needs.mpr need,
          mapped.mpr (.inl (OrderedDict.get?_eq_some.mp there))⟩
    · rintro ⟨p, q, left, need, right⟩
      -- a path is not needed by itself nor by one that was migrated before it
      have older : p ∈ done ∨ p = pid → (q, parent) ∈ s.mapping.entries := by
        intro place
        rcases mapped.mp right with old | ⟨rfl, _⟩
        · exact old
        · refine absurd ?_ fresh
          rcases place with old | rfl
          · exact h.closed p old _ need
          · exact before need
      rcases mapped.mp left with old | ⟨rfl, rfl⟩
      · exact .inl ⟨p, q, old, need, older (.inl (h.mem_done old))⟩
      · have there := OrderedDict.get?_eq_some.mpr (older (.inr rfl))
        exact .inr (List.mem_map.mpr ⟨parent, List.mem_dedup.mpr ((listed parent).mpr
          ⟨q, needs.mp need, there⟩), rfl⟩)
  case evidence =>
    intro p i member
    rw [messages, List.filter_append]
    rcases mapped.mp member with old | ⟨rfl, rfl⟩
    · have none_ : rows.filter (·.taskId == i) = [] := by
        rw [List.filter_eq_nil_iff]
        intro m member same
        have given : m.taskId = i := by simpa using same
        exact other old (given.symm.trans (own m member))
      rw [none_, List.append_nil]
      exact h.evidence p i old
    · have none_ : db.messages.filter (·.taskId == i) = [] := by
        rw [List.filter_eq_nil_iff]
        intro m member same
        obtain ⟨q, old⟩ := h.only m member
        exact other old (by simpa using same)
      have all : rows.filter (·.taskId == i) = rows := by
        rw [List.filter_eq_self]
        intro m member
        simpa using own m member
      rw [none_, all, List.nil_append]
      exact told
  case only =>
    intro m member
    rw [messages] at member
    rcases List.mem_append.mp member with old | new
    · obtain ⟨p, there⟩ := h.only m old
      exact ⟨p, mapped.mpr (.inl there)⟩
    · exact ⟨pid, mapped.mpr (.inr ⟨rfl, own m new⟩)⟩
  case owners =>
    intro t p
    rw [placed.claimed t, List.mem_append, List.mem_singleton]
    by_cases claimed : t ∈ (c.owned pid).map (·.ts)
    · obtain ⟨m, member, rfl⟩ := List.mem_map.mp claimed
      rw [if_pos claimed, Option.some.injEq]
      constructor
      · rintro rfl
        exact ⟨.inr rfl, m, member, rfl⟩
      · rintro ⟨old | rfl, own⟩
        · exact (claimable m member p ((h.owners m.ts p).mpr ⟨old, own⟩)).symm
        · rfl
    · rw [if_neg claimed, h.owners]
      constructor
      · rintro ⟨old, own⟩
        exact ⟨.inl old, own⟩
      · rintro ⟨old | rfl, m, member, same⟩
        · exact ⟨old, m, member, same⟩
        · exact absurd (List.mem_map.mpr ⟨m, member, same⟩) claimed

end Migrated

variable (host clk) in
/-- The loop over paths that come after what they need: it succeeds exactly where every path fits and
    no timestamp is claimed twice. -/
theorem foldlM_migrated (holds : Holds c a) {rest : List Text} (h : Migrated stamp c done s db)
    (nodup : (done ++ rest).Nodup) (paths : ∀ p ∈ rest, (c.path? p).isSome)
    (met : ∀ before p after, rest = before ++ p :: after → ∀ q, c.Needs q p → q ∈ done ++ before) :
    ((∃ s' db', rest.foldlM (migratePath host clk stamp c a) s db = .ok (s', db')) ↔
      (∀ p ∈ rest, ∀ rec_, c.path? p = some rec_ → c.Fits host stamp p rec_) ∧
        (∀ p ∈ done, ∀ q ∈ rest, c.Apart p q) ∧ rest.Pairwise c.Apart) ∧
      ∀ s' db', rest.foldlM (migratePath host clk stamp c a) s db = .ok (s', db') →
        Migrated stamp c (done ++ rest) s' db' := by
  induction rest generalizing done s db with
  | nil =>
    refine ⟨iff_of_true ⟨s, db, rfl⟩ (by simp), fun s' db' run => ?_⟩
    obtain ⟨rfl, rfl⟩ := pure_ok.mp run
    rw [List.append_nil]
    exact h
  | cons pid rest ih =>
    have fresh : pid ∉ done := fun old => (List.nodup_append'.mp nodup).2.2 old List.mem_cons_self
    obtain ⟨rec_, found⟩ := Option.isSome_iff_exists.mp (paths pid List.mem_cons_self)
    have nodup' : (done ++ [pid] ++ rest).Nodup := by
      rw [List.append_assoc]
      exact nodup
    have met' : ∀ before p after, rest = before ++ p :: after → ∀ q, c.Needs q p →
        q ∈ done ++ [pid] ++ before := by
      intro before p after split q need
      have := met (pid :: before) p after (by rw [split]; rfl) q need
      rw [List.append_assoc]
      exact this
    have later := fun s₁ db₁ (migrated : Migrated stamp c (done ++ [pid]) s₁ db₁) =>
      ih migrated nodup' (fun p member => paths p (List.mem_cons_of_mem _ member)) met'
    have first : ∀ {s₁ db₁}, migratePath host clk stamp c a s pid db = .ok (s₁, db₁) →
        Migrated stamp c (done ++ [pid]) s₁ db₁ ∧ (∀ p ∈ done, c.Apart p pid) ∧
          c.Fits host stamp pid rec_ := by
      intro s₁ db₁ run
      obtain ⟨parents, id, looked, placed, claimable, fits⟩ := migratePath_ok holds h.regular found run
      exact ⟨h.step fresh found looked placed claimable, (h.claimable_iff fresh).mp claimable, fits⟩
    refine ⟨?_, fun s' db' run => ?_⟩
    · constructor
      · rintro ⟨s', db', run⟩
        obtain ⟨s₁, db₁, now, more⟩ := foldlM_cons_ok.mp run
        obtain ⟨migrated, apart, fits⟩ := first now
        obtain ⟨fitting, across, pairwise⟩ := (later s₁ db₁ migrated).1.mp ⟨s', db', more⟩
        refine ⟨List.forall_mem_cons.mpr ⟨fun r same => ?_, fitting⟩, fun p old => ?_, ?_⟩
        · rw [found] at same
          cases same
          exact fits
        · exact List.forall_mem_cons.mpr ⟨apart p old, across p (List.mem_append_left _ old)⟩
        · exact List.pairwise_cons.mpr ⟨across pid (by simp), pairwise⟩
      · rintro ⟨fitting, across, pairwise⟩
        obtain ⟨ahead, pairwise⟩ := List.pairwise_cons.mp pairwise
        have apart : ∀ p ∈ done, c.Apart p pid := fun p old => across p old pid List.mem_cons_self
        have parents : ∀ q ∈ rec_.dependsOn, ∃ id, s.mapping.get? q = some id ∧ (db.task? id).isSome := by
          intro q need
          have there := met [] pid rest rfl q ⟨rec_, found, need⟩
          rw [List.append_nil, ← h.keys, ← OrderedDict.get?_isSome] at there
          obtain ⟨id, mapped⟩ := Option.isSome_iff_exists.mp there
          exact ⟨id, mapped, h.here (OrderedDict.get?_eq_some.mp mapped)⟩
        have across' : ∀ p ∈ done ++ [pid], ∀ q ∈ rest, c.Apart p q := by
          intro p member q next
          rcases List.mem_append.mp member with old | new
          · exact across p old q (List.mem_cons_of_mem _ next)
          · rw [List.mem_singleton.mp new]
            exact ahead q next
        obtain ⟨s₁, db₁, now⟩ := migratePath_total clk holds h.regular h.edged found
          (fitting pid List.mem_cons_self rec_ found) ((h.claimable_iff fresh).mpr apart) parents h.idle
        obtain ⟨s', db', more⟩ := (later s₁ db₁ (first now).1).1.mpr
          ⟨fun p member => fitting p (List.mem_cons_of_mem _ member), across', pairwise⟩
        exact ⟨s', db', foldlM_cons_ok.mpr ⟨s₁, db₁, now, more⟩⟩
    · obtain ⟨s₁, db₁, now, more⟩ := foldlM_cons_ok.mp run
      have := (later s₁ db₁ (first now).1).2 s' db' more
      rw [List.append_assoc] at this
      exact this

end Loop

/-! ## The whole migration -/

section Whole

variable [LinearOrder τ] {host : Host} {clk : Text → Nat → Clock} {stamp : τ → Json} {c : Checkpoint τ}
  {a : Archive τ} {s s' : Progress τ} {db db' : Db}

theorem empty_get? {κ α : Type} [DecidableEq κ] (key : κ) :
    (OrderedDict.empty : OrderedDict κ α).get? key = none := rfl

theorem Migrated.start (host : Host) (stamp : τ → Json) (c : Checkpoint τ) :
    Migrated stamp c [] {} .empty where
  regular := .of_reachable (⟨[], rfl⟩ : Reachable host .empty)
  keys := rfl
  closed p member := absurd member List.not_mem_nil
  tasks := rfl
  task p id member := absurd member List.not_mem_nil
  parents child parent := by simp [Db.empty, OrderedDict.empty]
  evidence p id member := absurd member List.not_mem_nil
  only m member := absurd member List.not_mem_nil
  idle := rfl
  owners t p := by
    rw [empty_get?]
    simp

/-- What the loop keeps track of is what it has taken. -/
theorem migratePath_keys {pid : Text} (fresh : pid ∉ s.mapping.keys)
    (h : migratePath host clk stamp c a s pid db = .ok (s', db')) :
    s'.mapping.keys = s.mapping.keys ++ [pid] := by
  unfold migratePath at h
  cases found : a.records.get? pid with
  | none => simp only [found, fail_ok] at h
  | some rec_ =>
  cases looked : rec_.dependsOn.mapM s.mapping.get? with
  | none => simp only [found, looked, fail_ok] at h
  | some parents =>
  simp only [found, looked, bind_ok] at h
  obtain ⟨id, _, _, _, _, _, _, _, _, last⟩ := h
  have same : s'.mapping = s.mapping.set pid id := by
    split at last
    · obtain ⟨_, _, _, done⟩ := bind_ok.mp last
      rw [(pure_ok.mp done).1]
    · rw [(pure_ok.mp last).1]
  rw [same, OrderedDict.keys, OrderedDict.entries_set _ fresh, List.map_append]
  rfl

/-- The keys of the archive are the paths of the checkpoint. -/
theorem Holds.mem_keys (holds : Holds c a) {p : Text} : p ∈ a.records.keys ↔ (c.path? p).isSome := by
  rw [← OrderedDict.get?_isSome, holds.path]

theorem Holds.needs (holds : Holds c a) {p q : Text} : q ∈ a.needs p ↔ c.Needs q p := by
  unfold Archive.needs Checkpoint.Needs
  rw [holds.path]
  cases c.path? p with
  | none => simp
  | some rec_ => simp

/-- A name that is no path has no messages. -/
theorem Checkpoint.owned_of_none {p : Text} (h : c.path? p = none) : c.owned p = [] := by
  unfold Checkpoint.path? at h
  rw [Option.or_eq_none_iff, Option.map_eq_none_iff] at h
  unfold Checkpoint.owned
  rw [h.2, h.1]

instance : Std.Symm c.Apart := ⟨fun _ _ h m own n other same => h n other m own same.symm⟩

/-- All paths are told apart where those of a list of all of them are. -/
theorem Checkpoint.pairwise_apart {paths : List Text} (nodup : paths.Nodup)
    (all : ∀ p, p ∈ paths ↔ (c.path? p).isSome) :
    paths.Pairwise c.Apart ↔ ∀ p q, p ≠ q → c.Apart p q := by
  constructor
  · intro pairwise p q ne
    by_cases known : (c.path? p).isSome ∧ (c.path? q).isSome
    · exact pairwise.forall ((all p).mpr known.1)
        ((all q).mpr known.2) ne
    · intro m own n other
      rcases not_and_or.mp known with none_ | none_
      · rw [Option.not_isSome_iff_eq_none] at none_
        rw [Checkpoint.owned_of_none none_] at own
        exact absurd own List.not_mem_nil
      · rw [Option.not_isSome_iff_eq_none] at none_
        rw [Checkpoint.owned_of_none none_] at other
        exact absurd other List.not_mem_nil
  · exact fun apart => nodup.pairwise_of_forall_ne fun p _ q _ ne => apart p q ne

/-- The image of the active path is the active task. -/
theorem resumeActive_iff {done : List Text} (clock : Clock) (h : Migrated stamp c done s db) :
    (∃ db', resumeActive clock c s db = .ok ((), db')) ↔ c.activeId = [] ∨ c.activeId ∈ done := by
  unfold resumeActive
  by_cases none_ : c.activeId = []
  · rw [if_pos none_]
    exact iff_of_true ⟨db, rfl⟩ (.inl none_)
  rw [if_neg none_, ← h.keys, ← OrderedDict.get?_isSome]
  cases mapped : s.mapping.get? c.activeId with
  | none =>
    simp only [fail_ok, exists_false, false_iff, not_or]
    exact ⟨none_, nofun⟩
  | some id =>
    have here := h.here (OrderedDict.get?_eq_some.mp mapped)
    obtain ⟨out, left, run⟩ := resume_total clock h.regular here
    exact iff_of_true ⟨left, bind_ok.mpr ⟨out, left, run, rfl⟩⟩ (.inr rfl)

theorem Migrated.injective {done : List Text} (h : Migrated stamp c done s db) {p q : Text} {id : Int}
    (first : (p, id) ∈ s.mapping.entries) (second : (q, id) ∈ s.mapping.entries) : p = q := by
  have distinct : (s.mapping.entries.map Prod.snd).Nodup := by
    rw [← h.tasks]
    exact h.regular.tasks.keyed
  have same := List.inj_on_of_nodup_map distinct first second rfl
  exact congrArg Prod.fst same

theorem resumeActive_image {done : List Text} (h : Migrated stamp c done s db) {clock : Clock} {u : Unit}
    (all : ∀ p, p ∈ done ↔ (c.path? p).isSome)
    (run : resumeActive clock c s db = .ok (u, db')) : Image stamp c s.mapping.entries db' := by
  have paths : (s.mapping.entries.map Prod.fst).Nodup ∧
      ∀ p, p ∈ s.mapping.entries.map Prod.fst ↔ (c.path? p).isSome := by
    refine ⟨s.mapping.distinct, fun p => ?_⟩
    rw [← all, ← h.keys]
    rfl
  have distinct : (s.mapping.entries.map Prod.snd).Nodup := by
    rw [← h.tasks]
    exact h.regular.tasks.keyed
  unfold resumeActive at run
  by_cases none_ : c.activeId = []
  · rw [if_pos none_] at run
    obtain ⟨_, rfl⟩ := pure_ok.mp run
    refine ⟨paths, ⟨h.tasks, distinct⟩, fun p id mapped => ?_, h.parents, h.evidence, h.only, fun id => ?_⟩
    · have status : ∀ rec_, c.status p rec_ = if rec_.hidden then .archived else .opened :=
        fun rec_ => if_neg fun both => both.1 none_
      obtain ⟨rec_, title, row, rest⟩ := h.task p id mapped
      rw [← status rec_] at rest
      exact ⟨rec_, title, row, rest⟩
    · rw [h.idle]
      simp [none_]
  rw [if_neg none_] at run
  cases mapped : s.mapping.get? c.activeId with
  | none => simp only [mapped, fail_ok] at run
  | some active =>
  simp only [mapped] at run
  obtain ⟨out, left, resumed, last⟩ := bind_ok.mp run
  obtain ⟨_, rfl⟩ := pure_ok.mp last
  obtain ⟨moved, current⟩ := resume_moved resumed
  have listed := OrderedDict.get?_eq_some.mp mapped
  refine ⟨paths, ⟨moved.ids.trans h.tasks, distinct⟩, fun p id there => ?_, ?_, ?_, ?_, fun id => ?_⟩
  · obtain ⟨rec_, title, row, found, titled, here, rowTitle, rowSnapshot, rowStatus⟩ := h.task p id there
    by_cases own : p = c.activeId
    · subst own
      rw [OrderedDict.get?_eq_some.mpr there] at mapped
      cases mapped
      obtain ⟨before, after, was, is, keptTitle, keptSnapshot, status⟩ := moved.task
      rw [here] at was
      cases was
      exact ⟨rec_, title, after, found, titled, is, keptTitle.trans rowTitle, keptSnapshot.trans rowSnapshot,
        by rw [status, Checkpoint.status, if_pos ⟨none_, rfl⟩]⟩
    · have other : id ≠ active := fun same => own (h.injective there (same ▸ listed))
      have status : c.status p rec_ = if rec_.hidden then .archived else .opened :=
        if_neg fun both => own both.2.symm
      rw [← status] at rowStatus
      exact ⟨rec_, title, row, found, titled, (moved.others id other).trans here, rowTitle, rowSnapshot,
        rowStatus⟩
  · rw [moved.dependencies]
    exact h.parents
  · rw [moved.messages]
    exact h.evidence
  · rw [moved.messages]
    exact h.only
  · rw [current, Option.some.injEq]
    constructor
    · rintro rfl
      exact ⟨none_, listed⟩
    · rintro ⟨_, there⟩
      rw [OrderedDict.get?_eq_some.mpr there] at mapped
      exact (Option.some.inj mapped).symm

/-- The batch succeeds exactly on the paths that can be migrated. -/
theorem migrateBatch_iff (holds : Holds c a) :
    ((∃ s db, migrateBatch host clk stamp c a .empty = .ok (s, db)) ↔ Coherent host stamp c) ∧
      ∀ s db, migrateBatch host clk stamp c a .empty = .ok (s, db) →
        Image stamp c s.mapping.entries db := by
  let paths := a.records.keys
  let order := Layers.order Text.le a.needs paths.length [] paths
  have distinct : paths.Nodup := a.records.distinct
  have nodup : order.Nodup := Layers.order_nodup distinct
  have taken : ∀ p, p ∈ order ↔ Layers.Grounded a.needs [] paths p :=
    fun p => Layers.mem_order_iff (le_refl _)
  have same : Layers.Needed a.needs paths = c.Needs := by
    funext q p
    rw [Layers.Needed, holds.needs, holds.mem_keys, eq_iff_iff]
    exact ⟨And.right, fun need => ⟨by obtain ⟨_, found, _⟩ := need; rw [found]; rfl, need⟩⟩
  have grounded : (∀ p ∈ paths, p ∈ order) ↔
      (∀ p q, c.Needs q p → (c.path? q).isSome) ∧ ∀ p, ¬ Relation.TransGen c.Needs p p := by
    simp only [taken, Layers.grounded_iff_acyclic, same]
    refine and_congr_left fun _ => ?_
    simp only [paths, holds.needs, holds.mem_keys]
    exact ⟨fun h p q need => h p (by obtain ⟨_, found, _⟩ := need; rw [found]; rfl) q need,
      fun h p _ q need => h p q need⟩
  have met : ∀ before p after, order = before ++ p :: after → ∀ q, c.Needs q p → q ∈ [] ++ before :=
    fun before p after split q need => Layers.order_met split q (holds.needs.mpr need)
  have known : ∀ p ∈ order, (c.path? p).isSome :=
    fun p member => holds.mem_keys.mp (Layers.order_subset member)
  have loop := foldlM_migrated host clk holds (Migrated.start host stamp c)
    (by simpa using nodup) known met
  have tracks : ∀ (t : Progress τ) p (db : Db) t' db', p ∉ t.mapping.keys →
      migratePath host clk stamp c a t p db = .ok (t', db') → t'.mapping.keys = t.mapping.keys ++ [p] :=
    fun t p db t' db' fresh h => migratePath_keys fresh h
  have new : (({} : Progress τ).mapping.keys ++ paths).Nodup := distinct
  have all (covered : ∀ p ∈ paths, p ∈ order) : ∀ p, p ∈ order ↔ (c.path? p).isSome := fun p => by
    rw [← holds.mem_keys]
    exact ⟨Layers.order_subset, covered p⟩
  have batch : ∀ s db, migrateBatch host clk stamp c a .empty = .ok (s, db) ↔
      (∀ p ∈ paths, p ∈ order) ∧ ∃ mid,
        order.foldlM (migratePath host clk stamp c a) {} .empty = .ok (s, mid) ∧
          resumeActive (clk [] 0) c s mid = .ok ((), db) := by
    intro s db
    simp only [migrateBatch, bind_ok, pure_ok]
    constructor
    · rintro ⟨s', mid, looped, _, _, active, rfl, rfl⟩
      obtain ⟨covered, folded⟩ := (Layers.run_ok tracks new (le_refl _)).mp looped
      exact ⟨covered, mid, folded, active⟩
    · rintro ⟨covered, mid, folded, active⟩
      exact ⟨s, mid, (Layers.run_ok tracks new (le_refl _)).mpr ⟨covered, folded⟩, (), db, active, rfl, rfl⟩
  refine ⟨?_, fun s db h => ?_⟩
  · constructor
    · rintro ⟨s, db, h⟩
      obtain ⟨covered, mid, folded, active⟩ := (batch s db).mp h
      obtain ⟨fits, _, pairwise⟩ := loop.1.mp ⟨s, mid, folded⟩
      have migrated := loop.2 s mid folded
      refine ⟨(grounded.mp covered).1, (grounded.mp covered).2,
        (Checkpoint.pairwise_apart nodup (all covered)).mp pairwise, fun p rec_ found => ?_, ?_⟩
      · exact fits p ((all covered p).mpr (by rw [found]; rfl)) rec_ found
      · have := (resumeActive_iff (clk [] 0) migrated).mp ⟨db, active⟩
        rw [List.nil_append, all covered] at this
        exact this
    · rintro ⟨closed, acyclic, apart, fits, active⟩
      have covered := grounded.mpr ⟨closed, acyclic⟩
      obtain ⟨s, mid, folded⟩ := loop.1.mpr ⟨fun p _ rec_ found => fits p rec_ found,
        fun p member => absurd member List.not_mem_nil,
        (Checkpoint.pairwise_apart nodup (all covered)).mpr apart⟩
      have migrated := loop.2 s mid folded
      rw [← all covered, ← List.nil_append order] at active
      obtain ⟨db, resumed⟩ := (resumeActive_iff (clk [] 0) migrated).mpr active
      exact ⟨s, db, (batch s db).mpr ⟨covered, mid, folded, resumed⟩⟩
  · obtain ⟨covered, mid, folded, active⟩ := (batch s db).mp h
    have migrated := loop.2 s mid folded
    rw [List.nil_append] at migrated
    exact resumeActive_image migrated (all covered) active

/-- **The migration is exact.** It succeeds exactly on the checkpoints that can be migrated, whatever the
    order their paths are taken in, and then the destination is the image of the checkpoint: one task for
    each path, under the parents it had, told its messages in order, and the active path resumed. -/
theorem migrateV02_exact (host : Host) (clk : Text → Nat → Clock) (stamp : τ → Json) (c : Checkpoint τ) :
    ((∃ out, migrateV02 host clk stamp c = .ok out) ↔ Migratable host stamp c) ∧
      ∀ report db, migrateV02 host clk stamp c = .ok (report, db) →
        Image stamp c report.mapping db ∧ report.messages = db.messages.length := by
  have shape : ∀ report db, migrateV02 host clk stamp c = .ok (report, db) ↔
      c.version = 2 ∧ ∃ a s, c.archive = .ok a ∧ migrateBatch host clk stamp c a .empty = .ok (s, db) ∧
        report = ⟨s.mapping.entries, db.messages.length⟩ := by
    intro report db
    unfold migrateV02
    by_cases current : c.version = 2
    · rw [if_neg (not_not.mpr current), except_bind_ok]
      simp only [current, true_and]
      refine exists_congr fun a => ?_
      rw [exists_and_left]
      refine and_congr_right fun _ => ?_
      cases run : migrateBatch host clk stamp c a .empty with
      | error e =>
        rw [atomic_of_error run]
        constructor
        · intro failed
          cases failed
        · rintro ⟨_, failed, _⟩
          cases failed
      | ok out =>
        obtain ⟨s, left⟩ := out
        have committed := atomic_ok.mpr run
        rw [committed]
        constructor
        · intro h
          cases h
          exact ⟨s, rfl, rfl⟩
        · rintro ⟨s', same, rfl⟩
          cases same
          rfl
    · rw [if_pos current]
      simp [current]
  constructor
  · constructor
    · rintro ⟨⟨report, db⟩, h⟩
      obtain ⟨version, a, s, archived, run, _⟩ := (shape report db).mp h
      exact ⟨(migrateBatch_iff (archive_holds archived)).1.mp ⟨s, db, run⟩, version,
        archive_iff.mp ⟨a, archived⟩⟩
    · rintro ⟨coherent, version, distinct⟩
      obtain ⟨a, archived⟩ := archive_iff.mpr distinct
      obtain ⟨s, db, run⟩ := (migrateBatch_iff (archive_holds archived)).1.mpr coherent
      exact ⟨_, (shape _ db).mpr ⟨version, a, s, archived, run, rfl⟩⟩
  · intro report db h
    obtain ⟨_, a, s, archived, run, rfl⟩ := (shape report db).mp h
    exact ⟨(migrateBatch_iff (archive_holds archived)).2 s db run, rfl⟩

end Whole

end Legacy

end Cmpath
