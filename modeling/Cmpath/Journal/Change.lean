import Cmpath.Engine.Packing
import Cmpath.Journal.Retire

/-!
# One step of the journal

`Change` lists everything an engine operation can do to the database, guards included;
`Op.change` says each successful operation is one of these. A property of all runs is proved by
cases on `Change`, never by unfolding an operation.
-/

namespace Cmpath
open Lib Lib.Txn

/-- The two kinds of operation that do more to the turns than write rows of their own. -/
inductive Kind where
  | recover (id : Text)
  | retire
  | other
  deriving DecidableEq

/-- The kind of an operation. -/
def Op.kind : Op → Kind
  | .recover id _ => .recover id
  | .applyRetention _ _ => .retire
  | _ => .other

/-- What a successful engine operation of a kind does to the database. -/
inductive Change (host : Host) : Kind → Db → Db → Prop where
  /-- Base rows are added, or nothing is (a read, a replay). -/
  | additive {db db' : Db} (evolves : Evolves Write.Additive db db') : Change host .other db db'
  | begun {db db' : Db} (clk : Clock) (r : Request) (c : Counter) (row : TaskRow)
      (payload : Package) (basis : List BasisRow) (input : Request) (custom : List CustomCounter)
      (normal : normalizeRequest input custom = .ok (r, c))
      (begun : Begun host clk r c row payload basis db db') : Change host .other db db'
  | recovered {db : Db} (now : Stamp) (id : Text) (t : TurnRow) (row : TaskRow)
      (live : db.turn? id = some t) (pending : t.status = .pending)
      (task : db.task? t.taskId = some row) (revision : row.revision = t.taskRevision) :
      Change host (.recover id) db
        { db with turns := Table.update (·.requestId == id) (TurnRow.recover now) db.turns }
  | aborted {db : Db} (now : Stamp) (id : Text) (t : TurnRow)
      (live : db.turn? id = some t) (pending : t.status = .pending) :
      Change host .other db
        { db with turns := Table.update (·.requestId == id) (TurnRow.abort now) db.turns }
  | committed {db db' : Db} (clk : Clock) (id : Text) (generation : Int) (reply : Reply)
      (t : TurnRow) (row : TaskRow) (facts : Db) (snapshot : Json) (edges : List ProvenanceRow)
      (committed : Committed host clk id generation reply t row facts snapshot edges db db') :
      Change host .other db db'
  | toolStarted {db : Db} (id callId name : Text) (args : Json) (t : TurnRow)
      (texts : (textOK callId = true ∧ callId.size ≤ 128) ∧ textOK name = true)
      (live : db.turn? id = some t) (pending : t.status = .pending)
      (unknown : db.tool? id callId = none) (fresh : validateBasis id db = .ok ()) :
      Change host .other db { db with toolCalls := db.toolCalls ++ [newTool host id callId name args] }
  | toolFinished {db db' : Db} (clk : Clock) (id callId : Text) (raw : Json) (t : TurnRow)
      (call : ToolRow) (live : db.turn? id = some t) (pending : t.status = .pending)
      (known : db.tool? id callId = some call) (started : call.status = .started)
      (finished : Finished clk id callId raw t call db db') : Change host .other db db'
  | leased {db : Db} (lease : LeaseRow) (t : TurnRow) (text : textOK lease.callId = true)
      (live : db.turn? lease.requestId = some t) (pending : t.status = .pending)
      (token : (∃ v, lease.token = fingerprint host v) ∧
        ∀ l ∈ db.actionLeases, l.token ≠ lease.token)
      (hash : ∃ v, lease.argsHash = fingerprint host v) :
      Change host .other db { db with actionLeases := db.actionLeases ++ [lease] }
  | requested {db : Db} (new : ModelCallRow) (t : TurnRow)
      (texts : textOK new.callId = true ∧ textOK new.counting = true ∧ new.payloadJson.valid = true)
      (live : db.turn? new.requestId = some t) (pending : t.status = .pending)
      (budget : new.units ≤ (Package.ofJson t.packageJson).inputAllowance)
      (unknown : db.modelCall? new.requestId new.callId = none)
      (fresh : validateBasis new.requestId db = .ok ()) :
      Change host .other db { db with modelCalls := db.modelCalls ++ [new] }
  | responded {db : Db} (new : ModelResponseRow) (t : TurnRow)
      (texts : textOK new.callId = true ∧ new.responseJson.valid = true)
      (live : db.turn? new.requestId = some t) (pending : t.status = .pending)
      (request : (db.modelCall? new.requestId new.callId).isSome)
      (unknown : db.modelResponse? new.requestId new.callId = none) :
      Change host .other db { db with modelResponses := db.modelResponses ++ [new] }
  | retired {db : Db} (retiredAt : Stamp) (cutoff : Instant) :
      Change host .retire db (db.retireAll retiredAt (db.candidateIds cutoff))

namespace Change

theorem same {host : Host} (db : Db) : Change host .other db db := .additive (.refl db)

theorem of_read {α : Type} {host : Host} {q : Query α} {respond : α → Response} {db db' : Db}
    {out : Response} (h : responding respond (read q) db = .ok (out, db')) :
    Change host .other db db' := by
  obtain ⟨a, run, _⟩ := responding_ok.mp h
  rw [(read_ok.mp run).2]
  exact same db

end Change

/-- **Every operation is one of the changes.** -/
theorem Op.change {host : Host} {clk : Clock} {op : Op} {db db' : Db} {out : Response}
    (h : op.run host clk db = .ok (out, db')) : Change host op.kind db db' := by
  cases op with
  | createTask input =>
    obtain ⟨_, run, _⟩ := responding_ok.mp h
    exact .additive ((keeps_createTask _ _ _ _ _ _ run).mono fun _ => Write.Silent.additive)
  | appendBatch inputs =>
    obtain ⟨_, run, _⟩ := responding_ok.mp h
    exact .additive (keeps_appendBatch (fun _ => trivial) _ _ _ _ _ run)
  | setFact taskId f =>
    obtain ⟨_, run, _⟩ := responding_ok.mp h
    exact .additive (keeps_setFact (fun _ => trivial) _ _ _ _ _ _ run)
  | begin r custom =>
    obtain ⟨_, run, _⟩ := responding_ok.mp h
    obtain ⟨r', c, normal, ⟨_, _, _, _, _, rfl⟩ | ⟨row, payload, basis, begun, _⟩⟩ := begin_ok run
    · exact .same _
    · exact .begun clk r' c row payload basis r custom normal begun
  | recover id generation =>
    obtain ⟨_, run, _⟩ := responding_ok.mp h
    obtain ⟨t, row, live, pending, _, task, revision, rfl⟩ := recover_ok run
    exact .recovered _ id t row live pending task revision
  | commit id generation reply =>
    obtain ⟨_, run, _⟩ := responding_ok.mp h
    obtain ⟨_, _, _, _, _, _, rfl⟩ | ⟨t, row, facts, snapshot, edges, committed⟩ := commit_ok run
    · exact .same _
    · exact .committed clk id generation reply t row facts snapshot edges committed
  | abort id generation =>
    obtain ⟨_, run, _⟩ := responding_ok.mp h
    obtain ⟨t, live, pending, _, rfl⟩ := abort_ok run
    exact .aborted _ id t live pending
  | actionEligible id generation callId ttlMs =>
    obtain ⟨_, run, _⟩ := responding_ok.mp h
    obtain ⟨text, t, call, lease, live, pending, _, _, _, _, rfl, rfl, _, token, hash, rfl⟩ :=
      actionEligible_ok run
    exact .leased lease t text live pending token hash
  | startTool id generation callId name args =>
    obtain ⟨_, run, _⟩ := responding_ok.mp h
    obtain ⟨callText, nameText, t, live, pending, _, ⟨_, _, _, _, rfl⟩ | ⟨unknown, fresh, _, _, rfl⟩⟩
      := startTool_ok run
    · exact .same _
    · exact .toolStarted id callId name args t ⟨callText, nameText⟩ live pending unknown fresh
  | finishTool id generation callId result tokens =>
    obtain ⟨_, run, _⟩ := responding_ok.mp h
    obtain ⟨t, call, live, pending, _, known, ⟨_, rfl⟩ | ⟨started, finished⟩⟩ := finishTool_ok run
    · exact .same _
    · exact .toolFinished clk id callId _ t call live pending known started finished
  | recordModelRequest id generation callId payload units counting =>
    obtain ⟨_, run, _⟩ := responding_ok.mp h
    obtain ⟨call, count, utf8, t, live, pending, _, budget, ⟨_, _, rfl⟩ | ⟨unknown, fresh, rfl⟩⟩ :=
      recordModelRequest_ok run
    · exact .same _
    · exact .requested _ t ⟨call, count, utf8⟩ live pending budget unknown fresh
  | recordModelResponse id generation callId response =>
    obtain ⟨_, run, _⟩ := responding_ok.mp h
    obtain ⟨call, utf8, t, live, pending, _, request, ⟨_, _, rfl⟩ | ⟨unknown, rfl⟩⟩ :=
      recordModelResponse_ok run
    · exact .same _
    · exact .responded _ t ⟨call, utf8⟩ live pending request unknown
  | applyRetention cutoff planHash =>
    obtain ⟨_, run, _⟩ := responding_ok.mp h
    obtain ⟨before, _, _, _, rfl⟩ := applyRetention_ok run
    exact .retired _ before
  | retentionPlan cutoff => exact .of_read h
  | task id => exact .of_read h
  | turn id => exact .of_read h
  | tools id => exact .of_read h
  | modelCalls id => exact .of_read h
  | search query ids limit => exact .of_read h
  | preview r custom => exact .of_read h

/-- What an action turned out to be: a failed one is nothing special. -/
def Step.performed (host : Host) (step : Step) (db : Db) : Kind :=
  match step.action, (step.exec host db).1 with
  | .engine op, .ok _ => op.kind
  | _, _ => .other

/-- An engine operation changes the database as `Change` says, or not at all. -/
theorem Step.engine_change {host : Host} {step : Step} (engine : step.isEngine) (db : Db) :
    Change host (step.performed host db) db (step.next host db) := by
  obtain ⟨op, same⟩ := engine
  unfold Step.performed Step.next Step.exec
  rw [same]
  cases run : atomic (op.run host step.clk) db with
  | mk result db' =>
    show Change host (match Action.engine op, (atomic (op.run host step.clk) db).1 with
      | .engine op, .ok _ => op.kind
      | _, _ => .other) db (atomic (op.run host step.clk) db).2
    rw [run]
    cases result with
    | error e =>
      rw [atomic_error run]
      exact .same db
    | ok out => exact Op.change (atomic_ok.mp run)

/-- Any action is a change of the engine or a sequence of base writes of another writer. -/
theorem Step.change (host : Host) (step : Step) (db : Db) :
    Change host (step.performed host db) db (step.next host db) ∨
      Evolves Write.Any db (step.next host db) := by
  cases same : step.action with
  | engine op => exact .inl (Step.engine_change ⟨op, same⟩ db)
  | memory op =>
    refine .inr (step.next_cases (.refl db) fun out db' run => ?_)
    rw [same] at run
    exact keeps_memory host step.clk op db out db' run
  | direct write =>
    refine .inr (step.next_cases (.refl db) fun out db' run => ?_)
    rw [same] at run
    exact keeps_direct_run write db out db' run

/-! ## The base tables under a change -/

/-- The base tables, the clocks and the log of `b` come from those of `a` by row writes. -/
def Based (allowed : Write → Prop) (a b : Db) : Prop :=
  ∃ mid, Evolves allowed a mid ∧ b.toTables = mid.toTables ∧ b.scopeEpochs = mid.scopeEpochs ∧
    b.writes = mid.writes

theorem Based.of_evolves {allowed : Write → Prop} {a b : Db} (h : Evolves allowed a b) :
    Based allowed a b :=
  ⟨b, h, rfl, rfl, rfl⟩

theorem Based.mono {allowed other : Write → Prop} (more : ∀ w, allowed w → other w) {a b : Db}
    (h : Based allowed a b) : Based other a b := by
  obtain ⟨mid, evolves, same⟩ := h
  exact ⟨mid, evolves.mono more, same⟩

theorem reopened_task {db : Db} {row : TaskRow} {id : Int} (found : db.task? id = some row) :
    ((db.reopened row).task? id).isSome := by
  unfold Db.reopened
  split
  · have same := task?_id found
    subst same
    have self : (Table.replace (·.id == row.id) row.reopen db.tasks).find? (·.id == row.id) =
        some row.reopen := Table.find?_replace_self found rfl
    show (List.find? _ (Table.replace _ _ _)).isSome
    rw [self]
    rfl
  · rw [found]
    rfl

theorem opened_evolves {allowed : Write → Prop} (moved : ∀ o n, allowed (.replaceTask o n))
    (message : ∀ m, allowed (.insertMessage m)) (active : ∀ s, allowed (.runtime s))
    (logged : ∀ k t n, allowed (.event k t n)) {db : Db} {clk : Clock} {r : Request} {row : TaskRow}
    (found : db.task? r.taskId = some row) : Evolves allowed db (db.opened clk r row) := by
  have first : Evolves allowed db (db.reopened row) := by
    unfold Db.reopened
    split
    · exact .single (.replaceTask row row.reopen) (moved _ _) ⟨(task?_id found).symm ▸ found, rfl⟩
    · exact .refl db
  have second := first.step (.insertMessage (queryMessage (db.reopened row) clk r)) (message _)
    ⟨rfl, reopened_task found⟩
  have third := second.step
    (.runtime ⟨some r.taskId, (db.reopened row).runtimeState.version + 1⟩) (active _) trivial
  exact third.step (.event .harnessBegin r.taskId (clk.now 1)) (logged _ _ _) trivial

theorem Begun.based {host : Host} {clk : Clock} {r : Request} {c : Counter} {row : TaskRow}
    {payload : Package} {basis : List BasisRow} {db db' : Db}
    (h : Begun host clk r c row payload basis db db') : Based Write.Engine db db' :=
  ⟨_, opened_evolves (fun _ _ => trivial) (fun _ => trivial) (fun _ => trivial)
    (fun _ _ _ => trivial) h.task, by rw [h.after], by rw [h.after], by rw [h.after]⟩

theorem Committed.factsTask {host : Host} {clk : Clock} {id : Text} {generation : Int}
    {reply : Reply} {t : TurnRow} {row : TaskRow} {facts : Db} {snapshot : Json}
    {edges : List ProvenanceRow} {db db' : Db}
    (h : Committed host clk id generation reply t row facts snapshot edges db db') :
    facts.task? t.taskId = some row := by
  unfold Db.task?
  rw [(evolves_facts h.factual).1]
  exact h.task

theorem Committed.based {host : Host} {clk : Clock} {id : Text} {generation : Int}
    {reply : Reply} {t : TurnRow} {row : TaskRow} {facts : Db} {snapshot : Json}
    {edges : List ProvenanceRow} {db db' : Db}
    (h : Committed host clk id generation reply t row facts snapshot edges db db') :
    Based Write.Engine db db' := by
  have first : Evolves Write.Engine db (db.insertMessage (replyMessage db clk id t.taskId reply)) :=
    .single (.insertMessage _) trivial ⟨rfl, by rw [replyMessage, h.task]; rfl⟩
  have second := first.trans (h.factual.mono fun w ⟨_, fact⟩ => by rw [fact]; trivial)
  have found : facts.task? row.id = some row := by
    rw [task?_id h.task]
    exact h.factsTask
  have third := second.step (.replaceTask row (row.withSnapshot snapshot)) trivial ⟨found, rfl⟩
  have fourth := third.step (.event .harnessCommit t.taskId (clk.now 2)) trivial trivial
  exact ⟨_, fourth, by rw [h.after]; rfl, by rw [h.after]; rfl, by rw [h.after]; rfl⟩

theorem Finished.based {clk : Clock} {id callId : Text} {raw : Json} {t : TurnRow} {call : ToolRow}
    {db db' : Db} (h : Finished clk id callId raw t call db db') : Based Write.Engine db db' := by
  obtain ⟨_, _, _, _, _, _, _, _, rfl⟩ := h.taskEpoch
  exact ⟨_, .single (.insertMessage (resultMessage db clk t.taskId call raw)) trivial
    ⟨rfl, h.task⟩, rfl, rfl, rfl⟩

theorem retireAll_tables (retiredAt : Stamp) : ∀ (ids : List Text) (db : Db),
    (db.retireAll retiredAt ids).toTables = db.toTables ∧
      (db.retireAll retiredAt ids).scopeEpochs = db.scopeEpochs ∧
      (db.retireAll retiredAt ids).writes = db.writes
  | [], _ => ⟨rfl, rfl, rfl⟩
  | id :: rest, db => retireAll_tables retiredAt rest (db.retireOne retiredAt id)

theorem Change.based {host : Host} {kind : Kind} {db db' : Db} (c : Change host kind db db') :
    Based Write.Engine db db' := by
  cases c with
  | additive evolves => exact .of_evolves (evolves.mono fun _ => Write.Additive.engine)
  | begun _ _ _ _ _ _ _ _ _ begun => exact begun.based
  | committed _ _ _ _ _ _ _ _ _ committed => exact committed.based
  | toolFinished _ _ _ _ _ _ _ _ _ _ finished => exact finished.based
  | retired retiredAt cutoff =>
    obtain ⟨tables, epochs, writes⟩ := retireAll_tables retiredAt (db.candidateIds cutoff) db
    exact ⟨db, .refl db, tables, epochs, writes⟩
  | _ => exact ⟨db, .refl db, rfl, rfl, rfl⟩

/-- Whatever the action, the base tables change by row writes alone. -/
theorem Step.based (host : Host) (step : Step) (db : Db) :
    Based Write.Any db (step.next host db) := by
  rcases step.change host db with change | evolves
  · exact change.based.mono fun _ _ => trivial
  · exact .of_evolves evolves

/-- The dependencies of every reachable database name tasks. -/
theorem Reachable.linked {host : Host} {db : Db} (h : Reachable host db) : db.Linked := by
  refine h.inv nofun ?_
  intro db step linked
  obtain ⟨mid, evolves, tables, _⟩ := step.based host db
  have kept : mid.Linked :=
    evolves.inv (fun w _ _ legal linked => w.linked legal linked) linked
  intro d member
  rw [congrArg Tables.dependencies tables] at member
  unfold Db.task?
  rw [congrArg Tables.tasks tables]
  exact kept d member

/-- A task identifier is given once. -/
structure Db.TaskKeys (db : Db) : Prop where
  keyed : Table.Keyed (·.id) db.tasks
  given : ∀ r ∈ db.tasks, r.id ≤ db.sequence.tasks

theorem Write.taskKeys {w : Write} {db : Db} (legal : w.Legal db) (h : db.TaskKeys) :
    (w.apply db).TaskKeys := by
  cases w with
  | insertTask new =>
    have next : new.id = db.sequence.tasks + 1 := legal
    refine ⟨h.keyed.append fun r member => ?_, fun r member => ?_⟩
    · have old := h.given r member
      omega
    · rcases List.mem_append.mp member with member | member
      · exact le_trans (h.given r member) (by show db.sequence.tasks ≤ new.id; omega)
      · rw [List.mem_singleton.mp member]
        exact le_refl _
  | replaceTask old new =>
    refine ⟨?_, fun r member => ?_⟩
    · show (List.map _ (Table.replace _ new db.tasks)).Nodup
      rw [Table.map_replace_of_key legal.1 legal.2]
      exact h.keyed
    · rcases Table.mem_replace member with rfl | member
      · rw [legal.2]
        exact h.given old (List.mem_of_find?_eq_some legal.1)
      · exact h.given r member
  | deleteTasks gone =>
    rw [Write.apply, Db.deleteTasks]
    refine ⟨?_, fun r member => ?_⟩
    · rw [touchAll_tasks]
      exact h.keyed.delete
    · rw [touchAll_tasks] at member
      rw [touchAll_sequence]
      exact h.given r (Table.mem_delete.mp member).1
  | deleteMessages gone =>
    rw [Write.apply, Db.deleteMessages]
    exact ⟨by rw [touchAll_tasks]; exact h.keyed, by
      rw [touchAll_tasks, touchAll_sequence]; exact h.given⟩
  | deleteFacts gone =>
    rw [Write.apply, Db.deleteFacts]
    exact ⟨by rw [touchAll_tasks]; exact h.keyed, by
      rw [touchAll_tasks, touchAll_sequence]; exact h.given⟩
  | deleteDependencies gone =>
    rw [Write.apply, Db.deleteDependencies]
    exact ⟨by rw [touchAll_tasks]; exact h.keyed, by
      rw [touchAll_tasks, touchAll_sequence]; exact h.given⟩
  | deleteAliases gone =>
    rw [Write.apply, Db.deleteAliases]
    exact ⟨by rw [touchAll_tasks]; exact h.keyed, by
      rw [touchAll_tasks, touchAll_sequence]; exact h.given⟩
  | _ => exact ⟨h.keyed, h.given⟩

theorem Step.taskKeys {host : Host} (step : Step) {db : Db} (keys : db.TaskKeys) :
    (step.next host db).TaskKeys := by
  obtain ⟨mid, evolves, tables, _⟩ := step.based host db
  have kept : mid.TaskKeys := evolves.inv (fun w _ _ legal h => w.taskKeys legal h) keys
  refine ⟨?_, ?_⟩
  · rw [congrArg Tables.tasks tables]
    exact kept.keyed
  · rw [congrArg Tables.tasks tables, congrArg Tables.sequence tables]
    exact kept.given

theorem Reachable.taskKeys {host : Host} {db : Db} (h : Reachable host db) : db.TaskKeys :=
  h.inv ⟨List.nodup_nil, by simp [Db.empty]⟩ fun _ step keys => step.taskKeys keys

/-- A message identifier is given once. -/
structure Db.MessageKeys (db : Db) : Prop where
  keyed : Table.Keyed (·.id) db.messages
  given : ∀ m ∈ db.messages, m.id ≤ db.sequence.messages

theorem Write.messageKeys {w : Write} {db : Db} (legal : w.Legal db) (h : db.MessageKeys) :
    (w.apply db).MessageKeys := by
  cases w with
  | insertMessage new =>
    have next : new.id = db.sequence.messages + 1 := legal.1
    refine ⟨h.keyed.append fun m member => ?_, fun m member => ?_⟩
    · have old := h.given m member
      omega
    · rcases List.mem_append.mp member with member | member
      · exact le_trans (h.given m member) (by show db.sequence.messages ≤ new.id; omega)
      · rw [List.mem_singleton.mp member]
        exact le_refl _
  | replaceMessage old new =>
    refine ⟨?_, fun m member => ?_⟩
    · show (List.map _ (Table.replace _ new db.messages)).Nodup
      rw [Table.map_replace_of_key legal.1 legal.2.1]
      exact h.keyed
    · rcases Table.mem_replace member with rfl | member
      · rw [legal.2.1]
        exact h.given old (List.mem_of_find?_eq_some legal.1)
      · exact h.given m member
  | deleteMessages gone =>
    rw [Write.apply, Db.deleteMessages]
    refine ⟨?_, fun m member => ?_⟩
    · rw [touchAll_messages]
      exact h.keyed.delete
    · rw [touchAll_messages] at member
      rw [touchAll_sequence]
      exact h.given m (Table.mem_delete.mp member).1
  | deleteTasks | deleteFacts | deleteDependencies | deleteAliases =>
    simp only [Write.apply, Db.deleteTasks, Db.deleteFacts, Db.deleteDependencies, Db.deleteAliases]
    exact ⟨by rw [touchAll_messages]; exact h.keyed, by
      rw [touchAll_messages, touchAll_sequence]; exact h.given⟩
  | _ => exact ⟨h.keyed, h.given⟩

theorem Reachable.messageKeys {host : Host} {db : Db} (h : Reachable host db) : db.MessageKeys := by
  refine h.inv ⟨List.nodup_nil, by simp [Db.empty]⟩ fun db step keys => ?_
  obtain ⟨mid, evolves, tables, _⟩ := step.based host db
  have kept : mid.MessageKeys := evolves.inv (fun w _ _ legal h => w.messageKeys legal h) keys
  refine ⟨?_, ?_⟩
  · rw [congrArg Tables.messages tables]
    exact kept.keyed
  · rw [congrArg Tables.messages tables, congrArg Tables.sequence tables]
    exact kept.given

/-- Every message belongs to a task whose identifier was given. -/
def Db.Owned (db : Db) : Prop := ∀ m ∈ db.messages, m.taskId ≤ db.sequence.tasks

theorem Db.TaskKeys.task_given {db : Db} (keys : db.TaskKeys) {id : Int}
    (h : (db.task? id).isSome) : id ≤ db.sequence.tasks := by
  obtain ⟨row, found⟩ := Option.isSome_iff_exists.mp h
  have := keys.given row (List.mem_of_find?_eq_some found)
  rwa [task?_id found] at this

theorem Write.owned {w : Write} {db : Db} (legal : w.Legal db) (keys : db.TaskKeys)
    (h : db.Owned) : (w.apply db).Owned := by
  cases w with
  | insertTask new =>
    have next : new.id = db.sequence.tasks + 1 := legal
    intro m member
    have := h m member
    show m.taskId ≤ new.id
    omega
  | insertMessage new =>
    intro m member
    rcases List.mem_append.mp member with old | last
    · exact h m old
    · rw [List.mem_singleton.mp last]
      exact keys.task_given legal.2
  | replaceMessage old new =>
    intro m member
    rcases Table.mem_replace member with rfl | kept
    · exact keys.task_given legal.2.2
    · exact h m kept
  | deleteMessages gone =>
    intro m member
    rw [Write.apply, Db.deleteMessages, touchAll_messages] at member
    rw [Write.apply, Db.deleteMessages, touchAll_sequence]
    exact h m (Table.mem_delete.mp member).1
  | deleteTasks | deleteFacts | deleteDependencies | deleteAliases =>
    intro m member
    simp only [Write.apply, Db.deleteTasks, Db.deleteFacts, Db.deleteDependencies, Db.deleteAliases,
      touchAll_messages, touchAll_sequence] at member ⊢
    exact h m member
  | _ => exact h

theorem Evolves.owned {allowed : Write → Prop} {db db' : Db} (evolves : Evolves allowed db db')
    (keys : db.TaskKeys) (h : db.Owned) : db'.TaskKeys ∧ db'.Owned :=
  evolves.inv (P := fun db => db.TaskKeys ∧ db.Owned)
    (fun w _ _ legal both => ⟨w.taskKeys legal both.1, w.owned legal both.1 both.2⟩) ⟨keys, h⟩

theorem Reachable.owned {host : Host} {db : Db} (h : Reachable host db) : db.Owned := by
  have both : db.TaskKeys ∧ db.Owned := by
    refine h.inv (P := fun db => db.TaskKeys ∧ db.Owned)
      ⟨⟨List.nodup_nil, by simp [Db.empty]⟩, by simp [Db.Owned, Db.empty]⟩ ?_
    rintro db step ⟨keys, owned⟩
    refine ⟨step.taskKeys keys, ?_⟩
    obtain ⟨mid, evolves, tables, _⟩ := step.based host db
    have kept := (evolves.owned keys owned).2
    unfold Db.Owned
    rw [congrArg Tables.messages tables, congrArg Tables.sequence tables]
    exact kept
  exact both.2

end Cmpath
