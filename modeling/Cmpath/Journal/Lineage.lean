import Mathlib.Logic.Relation
import Cmpath.Journal.Provenance
import Cmpath.Memory.Assembly

/-!
# The lineage of a task

The engine's `scope` and `TaskMemory.lineage` are one walk of the dependencies: ring by ring from
the task, parents in order. A fresh turn of scope `lineage` still has the walk it was packed from,
because every dependency the walk reads is a row of a task the turn watches.
-/

namespace Cmpath
open Lib Lib.Txn

/-! ## One walk -/

/-- `scope` walks the parents ring by ring. -/
theorem scope_walk {db : Db} {taskId : Int} {ids : Option (List Int)}
    (h : scope taskId (Text.lit "lineage") db = .ok ids) :
    ids = some (Walk.walk db.parents 3 taskId) := by
  unfold scope at h
  rw [if_neg (by decide), if_neg (by decide)] at h
  obtain ⟨reached, walk, same⟩ := except_bind_ok.mp h
  cases same
  exact congrArg some (hops_ok walk)

/-- So does `lineage`, which stops when a ring is empty. -/
theorem lineageHops_walk {db : Db} {n : Nat} {seen frontier out : List Int}
    (h : TaskMemory.lineageHops db n seen frontier = .ok out) :
    out = Walk.hops db.parents n seen frontier := by
  induction n generalizing seen frontier with
  | zero =>
    cases h
    rfl
  | succ n ih =>
    obtain ⟨met, first, run⟩ := except_bind_ok.mp h
    have hop := TaskMemory.lineageHop_ok first
    unfold Walk.hops
    dsimp only
    rw [← hop]
    by_cases empty : met.2.isEmpty = true
    · rw [if_pos empty] at run
      cases run
      rw [List.isEmpty_iff.mp empty, Walk.hops_nil]
    · rw [if_neg empty] at run
      exact ih run

theorem lineage_walk {db : Db} {taskId : Int} {out : List Int}
    (h : TaskMemory.lineage taskId db = .ok out) : out = Walk.walk db.parents 3 taskId := by
  obtain ⟨_, _, run⟩ := except_bind_ok.mp h
  exact lineageHops_walk run

section Total

variable {db : Db}

theorem findTask_of_row (numbered : db.Numbered) {id : Int} (h : (db.task? id).isSome) :
    ∃ row, TaskMemory.findTask id db = .ok row := by
  obtain ⟨row, found⟩ := Option.isSome_iff_exists.mp h
  have positive : 1 ≤ id := by
    have := numbered.2 row (List.mem_of_find?_eq_some found)
    rw [task?_id found] at this
    omega
  refine ⟨row, except_bind_ok.mpr ⟨(), ?_, ?_⟩⟩
  · unfold TaskMemory.check
    rw [decide_eq_true positive]
    rfl
  · rw [found]

theorem parent_row (linked : db.Linked) {id parent : Int} (h : parent ∈ db.parents id) :
    (db.task? parent).isSome := by
  rw [Db.parents, List.mem_insertionSort] at h
  obtain ⟨d, edge, rfl⟩ := List.mem_map.mp h
  exact linked d (List.mem_filter.mp edge).1

theorem lineageHop_total (numbered : db.Numbered) {frontier : List Int}
    (seen following : List Int) (here : ∀ id ∈ frontier, (db.task? id).isSome) :
    ∃ met, TaskMemory.lineageHop db seen following frontier = .ok met := by
  induction frontier generalizing seen following with
  | nil => exact ⟨_, rfl⟩
  | cons id rest ih =>
    obtain ⟨row, found⟩ := findTask_of_row numbered (here id List.mem_cons_self)
    obtain ⟨met, run⟩ := ih (Walk.meet seen following (db.parents id)).1
      (Walk.meet seen following (db.parents id)).2
      fun p member => here p (List.mem_cons_of_mem _ member)
    exact ⟨met, except_bind_ok.mpr ⟨row, found, run⟩⟩

theorem lineageHops_total (linked : db.Linked) (numbered : db.Numbered) (n : Nat)
    {frontier : List Int} (seen : List Int) (here : ∀ id ∈ frontier, (db.task? id).isSome) :
    ∃ out, TaskMemory.lineageHops db n seen frontier = .ok out := by
  induction n generalizing seen frontier with
  | zero => exact ⟨_, rfl⟩
  | succ n ih =>
    obtain ⟨met, first⟩ := lineageHop_total numbered seen [] here
    have hop := TaskMemory.lineageHop_ok first
    by_cases empty : met.2.isEmpty = true
    · exact ⟨met.1, except_bind_ok.mpr ⟨met, first, if_pos empty⟩⟩
    · have later : ∀ id ∈ met.2, (db.task? id).isSome := by
        intro id member
        rw [hop] at member
        rcases Walk.mem_hop.2.mp member with none_ | ⟨⟨node, _, edge⟩, _⟩
        · exact absurd none_ List.not_mem_nil
        · exact parent_row linked edge
      obtain ⟨out, run⟩ := ih met.1 later
      exact ⟨out, except_bind_ok.mpr ⟨met, first, (if_neg empty).trans run⟩⟩

theorem lineage_total (linked : db.Linked) (numbered : db.Numbered) {taskId : Int}
    (here : (db.task? taskId).isSome) : ∃ out, TaskMemory.lineage taskId db = .ok out := by
  obtain ⟨row, found⟩ := findTask_of_row numbered here
  have start : ∀ id ∈ [taskId], (db.task? id).isSome := by
    intro id member
    rw [List.mem_singleton.mp member]
    exact here
  obtain ⟨out, run⟩ := lineageHops_total linked numbered 3 [taskId] start
  exact ⟨out, except_bind_ok.mpr ⟨row, found, run⟩⟩

end Total

/-! ## Parents come first -/

/-- Every dependency goes from a task to one that was there before it. -/
def Db.Descending (db : Db) : Prop := ∀ d ∈ db.dependencies, d.parent < d.child

/-- A write that adds no other dependency. -/
def Write.Descends : Write → Prop
  | .insertDependency new => new.parent < new.child
  | .replaceDependency _ _ => False
  | _ => True

theorem Write.Edgeless.descends {w : Write} (h : w.Edgeless) : w.Descends := by
  cases w <;> first | exact trivial | exact h.elim

theorem Write.descending {w : Write} {db : Db} (kind : w.Descends) (h : db.Descending) :
    (w.apply db).Descending := by
  cases w with
  | insertDependency new =>
    intro d member
    rcases List.mem_append.mp member with member | member
    · exact h d member
    · rw [List.mem_singleton.mp member]
      exact kind
  | replaceDependency old new => exact kind.elim
  | deleteDependencies gone =>
    intro d member
    rw [Write.apply, Db.deleteDependencies, touchAll_dependencies] at member
    exact h d (Table.mem_delete.mp member).1
  | deleteTasks | deleteMessages | deleteFacts | deleteAliases =>
    intro d member
    rw [Write.apply] at member
    simp only [Db.deleteTasks, Db.deleteMessages, Db.deleteFacts, Db.deleteAliases,
      touchAll_dependencies] at member
    exact h d member
  | _ => exact h

theorem Evolves.descending {a b : Db} (evolves : Evolves Write.Descends a b) (h : a.Descending) :
    b.Descending :=
  evolves.inv (P := Db.Descending) (fun _ _ kind _ h => Write.descending kind h) h

theorem Evolves.descends {a b : Db} (h : Evolves Write.Edgeless a b) : Evolves Write.Descends a b :=
  h.mono fun _ => Write.Edgeless.descends

/-- A task in the table was given its identifier before the next one. -/
theorem Db.TaskKeys.older {db : Db} (keys : db.TaskKeys) {id : Int} (h : (db.task? id).isSome) :
    id < db.sequence.tasks + 1 := by
  obtain ⟨row, found⟩ := Option.isSome_iff_exists.mp h
  have given := keys.given row (List.mem_of_find?_eq_some found)
  rw [task?_id found] at given
  omega

section Creators

variable {host : Host} {clk : Clock} {db db' : Db}

/-- The engine creates a task under tasks that are there. -/
theorem createTask_descends {input : CreateTask} {out : Task} (keys : db.TaskKeys)
    (h : createTask host clk input db = .ok (out, db')) : Evolves Write.Descends db db' := by
  have refl := @Evolves.refl_all Write.Descends
  have trans := @Evolves.trans_all Write.Descends
  unfold createTask at h
  obtain ⟨_, _, valid, checking⟩ := bind_ok.mp h
  obtain ⟨_, rfl⟩ := ensure_ok.mp valid
  obtain ⟨_, _, checks, inserting⟩ := bind_ok.mp checking
  obtain ⟨rfl, older⟩ := each_check_ok (P := fun id (d : Db) => (d.task? id).isSome = true) (by
    intro id s s' u run
    obtain ⟨t, s₁, found, done⟩ := bind_ok.mp run
    obtain ⟨found, rfl⟩ := read_ok.mp found
    exact ⟨(pure_ok.mp done).2, row_of_task found⟩) checks
  obtain ⟨id, _, inserted, edges⟩ := bind_ok.mp inserting
  have first : Evolves Write.Descends _ _ := keeps_insertTask (fun _ => trivial) _ _ _ _ _ _ inserted
  obtain ⟨rfl, _⟩ := insertTask_ok inserted
  refine first.trans (Keeps.bind trans (.each_mem refl trans fun parent member => ?_) (fun _ =>
    .bind trans (.each refl trans (fun name => ?_) _) fun _ => .read refl _) _ _ _ edges)
  · exact keeps_insertDependencyOrIgnore (keys.older (older parent member))
  · exact .bind trans (.ensure refl _ _) fun _ => keeps_insertAliasOrIgnore (fun _ => trivial) _ _

/-- So does `TaskMemory`. -/
theorem memory_createTask_descends {title : Text} {parents : List Int} {aliases : List Text}
    {snapshot : Json} {out : Int} (keys : db.TaskKeys)
    (h : TaskMemory.createTask host clk title parents aliases snapshot db = .ok (out, db')) :
    Evolves Write.Descends db db' := by
  have refl := @Evolves.refl_all Write.Descends
  have trans := @Evolves.trans_all Write.Descends
  unfold TaskMemory.createTask at h
  obtain ⟨_, _, titled, naming⟩ := bind_ok.mp h
  obtain ⟨_, rfl⟩ := ensure_ok.mp titled
  obtain ⟨_, _, named, checking⟩ := bind_ok.mp naming
  obtain ⟨_, rfl⟩ := ensure_ok.mp named
  obtain ⟨_, _, checks, binding⟩ := bind_ok.mp checking
  obtain ⟨rfl, older⟩ := each_check_ok (P := fun id (d : Db) => (d.task? id).isSome = true) (by
    intro id s s' u run
    obtain ⟨t, s₁, found, done⟩ := bind_ok.mp run
    obtain ⟨found, rfl⟩ := TaskMemory.taskRow_ok found
    exact ⟨(pure_ok.mp done).2, by rw [found]; rfl⟩) checks
  obtain ⟨_, _, titleBound, snapshotting⟩ := bind_ok.mp binding
  obtain ⟨_, rfl⟩ := ensure_ok.mp titleBound
  obtain ⟨_, _, snapshotBound, inserting⟩ := bind_ok.mp snapshotting
  obtain ⟨_, rfl⟩ := ensure_ok.mp snapshotBound
  obtain ⟨id, _, inserted, edges⟩ := bind_ok.mp inserting
  have first : Evolves Write.Descends _ _ := keeps_insertTask (fun _ => trivial) _ _ _ _ _ _ inserted
  obtain ⟨rfl, _⟩ := insertTask_ok inserted
  refine first.trans (Keeps.bind trans (.each_mem refl trans fun parent member => ?_) (fun _ =>
    .bind trans (.each refl trans (fun name => ?_) _) fun _ =>
      .bind trans (TaskMemory.keeps_event (fun _ _ _ => trivial) _ _ _) fun _ => .pure refl _)
    _ _ _ edges)
  · exact keeps_directDependency (keys.older (older parent member))
  · exact .bind trans (.ensure refl _ _) fun _ => keeps_directAlias (fun _ => trivial) _ _

end Creators

/-! ## Runs of the two creators -/

section Runs

variable {host : Host} {clk : Clock} {db db' : Db}

/-- `Begin` leaves the dependencies. -/
theorem Begun.dependencies {r : Request} {c : Counter} {row : TaskRow} {payload : Package}
    {basis : List BasisRow} (h : Begun host clk r c row payload basis db db') :
    db'.dependencies = db.dependencies := by
  rw [h.after]
  show (db.reopened row).dependencies = db.dependencies
  unfold Db.reopened
  split <;> rfl

/-- No other operation of the engine touches a dependency. -/
theorem Op.edges {op : Op} {out : Response} (h : op.run host clk db = .ok (out, db'))
    (other : ∀ input, op ≠ .createTask input) : db'.dependencies = db.dependencies := by
  have ofRead : ∀ {α : Type} {q : Query α} {respond : α → Response},
      responding respond (read q) db = .ok (out, db') → db'.dependencies = db.dependencies := by
    intro α q respond run
    obtain ⟨_, run, _⟩ := responding_ok.mp run
    rw [(read_ok.mp run).2]
  have quiet : ∀ {a b : Db}, Evolves (fun w => ∀ d : Db, (w.apply d).dependencies = d.dependencies)
      a b → b.dependencies = a.dependencies :=
    fun evolves => evolves.inv (P := fun d => d.dependencies = _)
      (fun w d kind _ same => (kind d).trans same) rfl
  cases op with
  | createTask input => exact absurd rfl (other input)
  | appendBatch inputs =>
    obtain ⟨_, run, _⟩ := responding_ok.mp h
    exact quiet (keeps_appendBatch (fun _ _ => rfl) _ _ _ _ _ run)
  | setFact taskId f =>
    obtain ⟨_, run, _⟩ := responding_ok.mp h
    exact quiet (keeps_setFact (fun _ _ => rfl) _ _ _ _ _ _ run)
  | begin r custom =>
    obtain ⟨_, run, _⟩ := responding_ok.mp h
    obtain ⟨_, _, _, ⟨_, _, _, _, _, rfl⟩ | ⟨row, payload, basis, begun, _⟩⟩ := begin_ok run
    · rfl
    · exact begun.dependencies
  | recover id generation =>
    obtain ⟨_, run, _⟩ := responding_ok.mp h
    obtain ⟨_, _, _, _, _, _, _, rfl⟩ := recover_ok run
    rfl
  | commit id generation reply =>
    obtain ⟨_, run, _⟩ := responding_ok.mp h
    obtain ⟨_, _, _, _, _, _, rfl⟩ | ⟨t, row, facts, snapshot, edges, committed⟩ := commit_ok run
    · rfl
    · rw [committed.after]
      exact (evolves_facts committed.factual).2.2.1
  | abort id generation =>
    obtain ⟨_, run, _⟩ := responding_ok.mp h
    obtain ⟨_, _, _, _, rfl⟩ := abort_ok run
    rfl
  | actionEligible id generation callId ttlMs =>
    obtain ⟨_, run, _⟩ := responding_ok.mp h
    obtain ⟨_, _, _, _, _, _, _, _, _, _, _, _, _, _, _, rfl⟩ := actionEligible_ok run
    rfl
  | startTool id generation callId name args =>
    obtain ⟨_, run, _⟩ := responding_ok.mp h
    obtain ⟨_, _, _, _, _, _, ⟨_, _, _, _, rfl⟩ | ⟨_, _, _, _, rfl⟩⟩ := startTool_ok run <;> rfl
  | finishTool id generation callId result tokens =>
    obtain ⟨_, run, _⟩ := responding_ok.mp h
    obtain ⟨_, _, _, _, _, _, ⟨_, rfl⟩ | ⟨_, finished⟩⟩ := finishTool_ok run
    · rfl
    · obtain ⟨_, _, _, _, _, _, _, _, rfl⟩ := finished.taskEpoch
      rfl
  | recordModelRequest id generation callId payload units counting =>
    obtain ⟨_, run, _⟩ := responding_ok.mp h
    obtain ⟨_, _, _, _, _, _, _, _, ⟨_, _, rfl⟩ | ⟨_, _, rfl⟩⟩ := recordModelRequest_ok run <;> rfl
  | recordModelResponse id generation callId response =>
    obtain ⟨_, run, _⟩ := responding_ok.mp h
    obtain ⟨_, _, _, _, _, _, _, ⟨_, _, rfl⟩ | ⟨_, rfl⟩⟩ := recordModelResponse_ok run <;> rfl
  | applyRetention cutoff planHash =>
    obtain ⟨_, run, _⟩ := responding_ok.mp h
    obtain ⟨before, _, _, _, rfl⟩ := applyRetention_ok run
    exact congrArg Tables.dependencies (retireAll_tables _ _ _).1
  | retentionPlan cutoff => exact ofRead h
  | task id => exact ofRead h
  | turn id => exact ofRead h
  | tools id => exact ofRead h
  | modelCalls id => exact ofRead h
  | search query ids limit => exact ofRead h
  | preview r custom => exact ofRead h

/-- A call of either program keeps the dependencies descending. -/
theorem callStep_descending (call : Call) (keys : db.TaskKeys) (h : db.Descending) :
    ((callStep call).next host db).Descending := by
  refine (callStep call).next_cases (P := Db.Descending) h ?_
  intro out db' run
  obtain ⟨clk, op | op⟩ := call
  · have ran : op.run host clk db = .ok (out, db') := run
    by_cases creates : ∃ input, op = .createTask input
    · obtain ⟨input, rfl⟩ := creates
      obtain ⟨_, created, _⟩ := responding_ok.mp ran
      exact (createTask_descends keys created).descending h
    · unfold Db.Descending
      rw [Op.edges ran fun input same => creates ⟨input, same⟩]
      exact h
  · have ran : op.run host clk db = .ok (out, db') := run
    by_cases creates : ∃ title parents aliases snapshot,
      op = .createTask title parents aliases snapshot
    · obtain ⟨title, parents, aliases, snapshot, rfl⟩ := creates
      obtain ⟨_, created, _⟩ := responding_ok.mp ran
      exact (memory_createTask_descends keys created).descending h
    · have edgeless := keeps_memory_edgeless host clk op fun title parents aliases snapshot same =>
        creates ⟨title, parents, aliases, snapshot, same⟩
      exact (edgeless _ _ _ ran).descends.descending h

theorem runCalls_reachable (calls : List Call) : Reachable host (runCalls host .empty calls) :=
  ⟨calls.map callStep, rfl⟩

/-- Whatever the two programs run, a parent is older than its child. -/
theorem runCalls_descending (calls : List Call) : (runCalls host .empty calls).Descending := by
  have every : ∀ (d : Db) (step : Step), (∃ call, step = callStep call) →
      d.TaskKeys ∧ d.Descending →
        (step.next host d).TaskKeys ∧ (step.next host d).Descending := by
    rintro d _ ⟨call, rfl⟩ ⟨keys, descending⟩
    exact ⟨Step.taskKeys _ keys, callStep_descending call keys descending⟩
  have empty : Db.empty.TaskKeys ∧ Db.empty.Descending :=
    ⟨(show Reachable host .empty from ⟨[], rfl⟩).taskKeys, fun d none_ => absurd none_ List.not_mem_nil⟩
  refine (runSteps_inv every (fun step member => ?_) empty).2
  obtain ⟨call, _, same⟩ := List.mem_map.mp member
  exact ⟨call, same.symm⟩

end Runs

/-- One step up the dependencies. -/
def Db.ParentOf (db : Db) (child parent : Int) : Prop :=
  ∃ d ∈ db.dependencies, d.child = child ∧ d.parent = parent

theorem Db.Descending.acyclic {db : Db} (h : db.Descending) (id : Int) :
    ¬ Relation.TransGen db.ParentOf id id := by
  have below : ∀ {a b : Int}, Relation.TransGen db.ParentOf a b → b < a := by
    intro a b path
    induction path with
    | single edge =>
      obtain ⟨d, member, rfl, rfl⟩ := edge
      exact h d member
    | tail _ edge ih =>
      obtain ⟨d, member, rfl, rfl⟩ := edge
      exact lt_trans (h d member) ih
  exact fun cycle => lt_irrefl id (below cycle)

theorem pairwise_parents (db : Db) (id : Int) : (db.parents id).Pairwise (· ≤ ·) :=
  List.pairwise_insertionSort _ _

/-- **One lineage.** In a database the two programs built, the engine's walk and that of
    `TaskMemory` are the same list: the task, then ring by ring the ancestors up to three steps
    away, each once, in the order their children have them, parents ascending. The dependencies have
    no cycle. -/
theorem lineages_agree (host : Host) (calls : List Call) {taskId : Int}
    (known : ((runCalls host .empty calls).task? taskId).isSome) :
    (∃ ids, scope taskId (Text.lit "lineage") (runCalls host .empty calls) = .ok (some ids) ∧
      TaskMemory.lineage taskId (runCalls host .empty calls) = .ok ids ∧
      (∃ ring : Nat → List Int, ids = ring 0 ++ ring 1 ++ ring 2 ++ ring 3 ∧ ring 0 = [taskId] ∧
        ∀ k < 3, ring (k + 1) = Walk.firsts ((List.range (k + 1)).flatMap ring)
          ((ring k).flatMap (runCalls host .empty calls).parents)) ∧
      ids.Nodup ∧
      ∀ id, id ∈ ids ↔ Walk.Within (runCalls host .empty calls).parents taskId 3 id) ∧
    (∀ id, ((runCalls host .empty calls).parents id).Pairwise (· ≤ ·)) ∧
    ∀ id, ¬ Relation.TransGen (runCalls host .empty calls).ParentOf id id := by
  have reachable : Reachable host (runCalls host .empty calls) := runCalls_reachable calls
  generalize built : runCalls host .empty calls = db at *
  have descending : db.Descending := built ▸ runCalls_descending calls
  refine ⟨?_, pairwise_parents db, descending.acyclic⟩
  obtain ⟨ids, walked⟩ := scope_total reachable.linked (Text.lit "lineage") known
  obtain ⟨out, listed⟩ := lineage_total reachable.linked reachable.numbered known
  have same : out = Walk.walk db.parents 3 taskId := lineage_walk listed
  refine ⟨out, ?_, listed, ?_, ?_, ?_⟩
  · rw [walked, scope_walk walked, same]
  · refine ⟨fun k => (Walk.rings db.parents taskId k).2, ?_, rfl, ?_⟩
    · rw [same, Walk.walk_eq_rings]
      rfl
    · intro k _
      show Walk.firsts _ _ = Walk.firsts _ _
      rw [Walk.rings_flatMap]
  · rw [same, Walk.walk_eq_rings]
    exact Walk.nodup_rings 3
  · intro id
    rw [same, Walk.mem_walk]

/-- A task, a child of it and a child of both. -/
def plainFamily : List Call :=
  plainTask ++
    [(plainClock, .inr (.createTask (Text.lit "u") [1] [] (.obj []))),
      (plainClock, .inl (.createTask { title := Text.lit "v", parents := [2, 1] }))]

/-- The walk from the youngest. -/
theorem lineages_agree_family :
    ∃ ids, scope 3 (Text.lit "lineage") (runCalls plainHost .empty plainFamily) = .ok (some ids) ∧
      TaskMemory.lineage 3 (runCalls plainHost .empty plainFamily) = .ok ids := by
  have known : ((runCalls plainHost .empty plainFamily).task? 3).isSome := by decide +kernel
  obtain ⟨⟨ids, walked, listed, _⟩, _⟩ := lineages_agree plainHost plainFamily known
  exact ⟨ids, walked, listed⟩

/-! ## A fresh turn -/

/-- The parents of a task are rows of its slice. -/
theorem parents_slice {a b : Db} {p : Int → Bool}
    (same : (b.slice p).dependencies = (a.slice p).dependencies) {id : Int} (mine : p id = true) :
    b.parents id = a.parents id := by
  have rows : ∀ d : Db, d.dependencies.filter (·.child == id) =
      (d.slice p).dependencies.filter (·.child == id) := by
    intro d
    show _ = (d.dependencies.filter (p ·.child)).filter (·.child == id)
    rw [List.filter_filter]
    refine List.filter_congr fun e _ => ?_
    cases hit : e.child == id with
    | false => rfl
    | true => simp [beq_iff_eq.mp hit, mine]
  unfold Db.parents
  rw [rows a, rows b, same]

/-- The root of a slice is still there. -/
theorem task?_slice {a b : Db} {p : Int → Bool} (same : (b.slice p).tasks = (a.slice p).tasks)
    {id : Int} (mine : p id = true) (here : (a.task? id).isSome) : (b.task? id).isSome := by
  obtain ⟨row, found⟩ := Option.isSome_iff_exists.mp here
  have member : row ∈ (a.slice p).tasks := by
    refine List.mem_filter.mpr ⟨List.mem_of_find?_eq_some found, ?_⟩
    rw [task?_id found]
    exact mine
  rw [← same] at member
  exact List.find?_isSome.mpr
    ⟨row, (List.mem_filter.mp member).1, beq_iff_eq.mpr (task?_id found)⟩

/-- Two databases with the same rows in the scope of one have the same lineage. -/
theorem scope_slice {a b : Db} (linked : b.Linked) {taskId : Int} {ids : List Int} {p : Int → Bool}
    (walked : scope taskId (Text.lit "lineage") a = .ok (some ids))
    (inside : ∀ id, p id = true ↔ InScope a taskId (Text.lit "lineage") id)
    (here : (a.task? taskId).isSome) (tasks : (b.slice p).tasks = (a.slice p).tasks)
    (edges : (b.slice p).dependencies = (a.slice p).dependencies) :
    scope taskId (Text.lit "lineage") b = .ok (some ids) := by
  have within : ∀ id, Walk.Within a.parents taskId 2 id → p id = true :=
    fun id near => (inside id).mpr (.inr (.inr ⟨rfl, near.mono (by decide)⟩))
  have root : (b.task? taskId).isSome := task?_slice tasks (within _ (Walk.Within.start 2)) here
  obtain ⟨again, rewalked⟩ := scope_total linked (Text.lit "lineage") root
  rw [rewalked, scope_walk rewalked, scope_walk walked]
  rw [Walk.walk_congr (n := 2) fun id near => parents_slice edges (within id near)]

/-- **A fresh lineage.** Whatever runs after the `Begin` of a scoped turn of scope `lineage`: when the
    turn is fresh, its basis still names the tasks that were captured, in order, they are the
    lineage of the database the package was packed from, and walking the lineage again gives them.
    The provenance of a commit is then checked against them. -/
theorem lineage_pinned (host : Host) (before : List Step) {clk : Clock} {input r : Request}
    {custom : List CustomCounter} {out : Turn}
    (begun : BegunScoped host clk input r custom out (runSteps host .empty before))
    (kind : r.scope = Text.lit "lineage") {start : Db}
    (begins : start = Step.next host ⟨clk, .engine (.begin input custom)⟩
      (runSteps host .empty before)) (after : List Step)
    (fresh : validateBasis r.requestId (runSteps host start after) = .ok ()) :
    ∃ ids, (start.basisOf r.requestId).map (·.taskId) = ids ∧
      scope r.taskId r.scope (runSteps host .empty before) = .ok (some ids) ∧
      ((runSteps host start after).basisOf r.requestId).map (·.taskId) = ids ∧
      scope r.taskId r.scope (runSteps host start after) = .ok (some ids) ∧
      ∀ request, turnRequest r.requestId (runSteps host start after) = .ok request →
        ∀ refs, refs ≠ [] → validateProvenance request r.taskId refs (runSteps host start after) =
          checkReferences (runSteps host start after) (some ids) [] refs := by
  obtain ⟨c, row, payload, basis, tasks, opened, anchor, first, live⟩ := begun.tracked begins after
  have startReachable : Reachable host start := by
    rw [begins]
    exact ⟨before ++ [⟨clk, .engine (.begin input custom)⟩], by rw [runSteps_append]; rfl⟩
  have reachable : Reachable host (runSteps host start after) := by
    obtain ⟨steps, rfl⟩ := startReachable
    exact ⟨steps ++ after, by rw [runSteps_append]⟩
  -- the captured tasks are the lineage right after `Begin`
  have walked := anchor.walked
  rw [kind] at walked ⊢
  have captured := scope_walk walked
  have tracked := live (by
    obtain ⟨t, found, _⟩ := validateBasis_ok.mp fresh
    rw [found]
    rfl)
  have outside := (tracked.fresh anchor reachable.keys fun x member => foreignTouches_named member).mp
    fresh
  have rows := tracked.rows fun x member => inside_eq_false.mpr (outside x member)
  have member : ∀ id, tasks.all (·.contains id) = true ↔
      InScope start r.taskId (Text.lit "lineage") id := fun id => kind ▸ anchor.inside id
  have here : (start.task? r.taskId).isSome := by
    unfold scope at walked
    rw [if_neg (by decide), if_neg (by decide)] at walked
    obtain ⟨_, walk, _⟩ := except_bind_ok.mp walked
    obtain ⟨_, hop, _⟩ := except_bind_ok.mp walk
    obtain ⟨_, found, _⟩ := except_bind_ok.mp hop
    exact row_of_task found
  rw [captured] at walked
  have again := scope_slice reachable.linked walked member here
    ((congrArg Slice.tasks rows).trans rfl) ((congrArg Slice.dependencies rows).trans rfl)
  have packed : scope r.taskId (Text.lit "lineage") (runSteps host .empty before) =
      .ok (some (Walk.walk start.parents 3 r.taskId)) := by
    have old : Reachable host (runSteps host .empty before) := ⟨before, rfl⟩
    obtain ⟨ids, run⟩ := scope_total old.linked (Text.lit "lineage")
      (show ((runSteps host .empty before).task? r.taskId).isSome by rw [opened.task]; rfl)
    have parents : start.parents = (runSteps host .empty before).parents := by
      funext id
      unfold Db.parents
      rw [opened.dependencies]
    rw [run, scope_walk run, parents]
  refine ⟨Walk.walk start.parents 3 r.taskId, ?_, packed, ?_, again, ?_⟩
  · exact first.keys.trans (by rw [captured]; rfl)
  · exact tracked.keys.trans (by rw [captured]; rfl)
  · intro request found refs given
    obtain ⟨t, stored, rfl⟩ := turnRequest_ok.mp found
    obtain ⟨u, source, record⟩ := tracked.live
    have same : t = u := by
      have unique := reachable.keys.turns.find?_eq source
      rw [record.1] at unique
      exact Option.some.inj (stored.symm.trans unique)
    have asked : (Request.ofJson t.requestJson).scope = Text.lit "lineage" := by
      rw [same, record.2.2.2.1, anchor.stored.1, kind]
    unfold validateProvenance
    rw [if_neg (by simpa using given), asked, again]
    rfl

/-- A scoped turn of the child of a task. -/
def childRequest : Request :=
  { scopedRequest with taskId := 2, scope := Text.lit "lineage" }

def childTasks : List Step :=
  scopedTask ++ [plainStep (.createTask { title := Text.lit "u", parents := [1] })]

/-- Another task is created below the turn's. -/
def grandchild : List Step :=
  [plainStep (.createTask { title := Text.lit "v", parents := [2, 1] })]

/-- The new task is no ancestor: the turn is fresh and its lineage stays. -/
theorem lineage_pinned_child : ∃ ids, scope 2 (Text.lit "lineage")
    (runSteps plainHost .empty childTasks) = .ok (some ids) ∧
      scope 2 (Text.lit "lineage") (runSteps plainHost
        ((plainStep (.begin childRequest [plainCounter])).next plainHost
          (runSteps plainHost .empty childTasks)) grandchild) = .ok (some ids) := by
  obtain ⟨out, begun, created⟩ := exists_turn (p := Turn.created)
    (x := (Step.exec plainHost (plainStep (.begin childRequest [plainCounter]))
      (runSteps plainHost .empty childTasks)).1) (by decide +kernel)
  have fact : BegunScoped plainHost plainClock childRequest
      { withDefaults childRequest with counting := Text.lit "free" } [plainCounter] out
      (runSteps plainHost .empty childTasks) := ⟨⟨_, rfl⟩, by decide, begun, created⟩
  have fresh : validateBasis (Text.lit "r") (runSteps plainHost
      ((plainStep (.begin childRequest [plainCounter])).next plainHost
        (runSteps plainHost .empty childTasks)) grandchild) = .ok () := by
    obtain ⟨_, run⟩ := exists_ok (x := validateBasis (Text.lit "r") (runSteps plainHost
      ((plainStep (.begin childRequest [plainCounter])).next plainHost
        (runSteps plainHost .empty childTasks)) grandchild)) (by decide +kernel)
    exact run
  obtain ⟨ids, _, packed, _, again, _⟩ :=
    lineage_pinned plainHost childTasks fact rfl rfl grandchild fresh
  exact ⟨ids, packed, again⟩

end Cmpath
