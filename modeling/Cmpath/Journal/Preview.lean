import Cmpath.Engine.Packing
import Cmpath.Journal.Revision

/-!
# What a preview shows

`Preview` packs the store as it is. `Begin` packs it after it has reopened the task of the request,
if that was archived, and a packed context quotes the status of its task.
-/

namespace Cmpath
open Lib Lib.Txn

/-- A result that is the budget error. -/
def Budget {α : Type} (result : Except Failure α) : Prop :=
  ∃ message, result = .error (.problem .budget message)

theorem budget_error {α β : Type} {e : Failure} :
    Budget (.error e : Except Failure α) ↔ Budget (.error e : Except Failure β) := by
  constructor <;> rintro ⟨message, same⟩
  · exact ⟨message, congrArg Except.error (Except.error.inj same)⟩
  · exact ⟨message, congrArg Except.error (Except.error.inj same)⟩

theorem not_budget_ok {α : Type} {a : α} : ¬ Budget (.ok a : Except Failure α) := by
  rintro ⟨_, same⟩
  cases same

/-- A request that `Begin` gets as far as packing: it is well formed, the journal does not know it
    and its task is there and has no unfinished turn. -/
structure Admissible (input : Request) (custom : List CustomCounter) (r : Request) (c : Counter)
    (row : TaskRow) (db : Db) : Prop where
  normal : normalizeRequest input custom = .ok (r, c)
  unretired : db.retired? r.requestId = none
  unknown : db.turn? r.requestId = none
  idle : ∀ t ∈ db.turns, t.taskId = r.taskId → t.status ≠ .pending
  task : db.task? r.taskId = some row

/-- `Preview` shows what `Begin` persists: the package that goes into the turn row is the encoding
    of the one it returns, and one runs out of budget when the other does. -/
structure PreviewShows (host : Host) (clk : Clock) (input : Request) (custom : List CustomCounter)
    (id : Text) (db : Db) : Prop where
  package : ∀ out db', begin host clk input custom db = .ok (out, db') →
    ∃ p t, preview host input custom db = .ok p ∧ db'.turn? id = some t ∧
      t.packageJson = encode p.toJson
  budget : Budget (preview host input custom db) ↔ Budget (begin host clk input custom db)

/-! ## `Begin` from the packing on -/

theorem task_error {id : Int} {db : Db} {e : Failure} (h : task id db = .error e) :
    e = .problem .notFound "task does not exist" := by
  unfold task at h
  split at h
  · exact (Except.error.inj h).symm
  · cases h

theorem hop_error {db : Db} {front : List Int} {e : Failure} : ∀ {ids next : List Int},
    hop db ids next front = .error e → e = .problem .notFound "task does not exist" := by
  induction front with
  | nil =>
    intro ids next h
    cases h
  | cons id front ih =>
    intro ids next h
    unfold hop at h
    rcases except_bind_error.mp h with lost | ⟨t, _, later⟩
    · exact task_error lost
    · exact ih later

theorem scope_error {db : Db} {taskId : Int} {kind : Text} {e : Failure}
    (h : scope taskId kind db = .error e) : e = .problem .notFound "task does not exist" := by
  have walk : ∀ {n : Nat} {ids front : List Int}, hops db n ids front = .error e →
      e = .problem .notFound "task does not exist" := by
    intro n
    induction n with
    | zero =>
      intro ids front lost
      cases lost
    | succ n ih =>
      intro ids front lost
      unfold hops at lost
      rcases except_bind_error.mp lost with here | ⟨met, _, later⟩
      · exact hop_error here
      · exact ih later
  unfold scope at h
  split at h
  · cases h
  · split at h
    · cases h
    · rcases except_bind_error.mp h with lost | ⟨_, _, found⟩
      · exact walk lost
      · cases found

/-- What `Begin` writes once the context is packed (`harness.go:141-163`). -/
def recordTurn (host : Host) (clk : Clock) (r : Request) (revision : Int) (payload : Package) :
    Tx Turn := do
  let _ ← append (clk.now 0)
    ⟨r.taskId, Text.lit "user", r.query, some (turnSource r.requestId)⟩
  setActiveTask (some r.taskId)
  insertEvent .harnessBegin r.taskId (clk.now 1)
  insertTurn (newTurn host clk r revision payload)
  captureBasis r
  let out ← read (turn r.requestId)
  pure { out with created := true }

/-- None of these writes fails for the budget. -/
theorem recordTurn_raises (host : Host) (clk : Clock) (r : Request) (revision : Int)
    (payload : Package) :
    Raises (fun e => ∀ message, e ≠ .problem .budget message)
      (recordTurn host clk r revision payload) := by
  have other : ∀ {code : Code} {message : String}, code ≠ .budget →
      ∀ m, Failure.problem code message ≠ .problem .budget m := by
    intro code message differ m same
    exact differ (Failure.problem.inj same).1
  have row : ∀ {id : Text} {db : Db} {e : Failure}, turnRow id db = .error e →
      ∀ m, e ≠ .problem .budget m := by
    intro id db e h
    unfold turnRow at h
    split at h
    · cases h
    · split at h <;> cases h <;> exact other nofun
  unfold recordTurn
  refine .bind ?_ fun _ => .bind (.modify _) fun _ => .bind (.modify _) fun _ => ?_
  · unfold append
    split
    · exact .fail (other nofun)
    · refine .bind (.ensure fun _ => other nofun) fun _ => .bind ?_ fun _ => .pure _
      unfold insertMessage requireTask
      refine .bind (.require nofun) fun _ => .bind (.read fun _ _ h => by cases h) fun _ => ?_
      exact .bind (.modify _) fun _ => .pure _
  refine .bind ?_ fun _ => .bind ?_ fun _ => .bind (.read fun db e h => ?_) fun _ => .pure _
  · unfold insertTurn requireTask
    exact .bind (.require nofun) fun _ => .bind (.require nofun) fun _ =>
      .bind (.require nofun) fun _ => .bind (.require nofun) fun _ => .modify _
  · unfold captureBasis
    split
    · refine .bind (.read fun db e h => ?_) fun ids => .each (fun id => ?_) ids
      · rcases except_bind_error.mp h with lost | ⟨_, _, found⟩
        · rw [scope_error lost]
          exact other nofun
        · cases found
      · refine .bind (.read fun db e h => ?_) fun epoch => ?_
        · unfold scopeEpoch at h
          split at h
          · cases h
          · cases h
            exact other nofun
        · unfold insertBasis requireTurn
          exact .bind (.require nofun) fun _ => .bind (.require nofun) fun _ => .modify _
    · exact .pure _
  · unfold turn at h
    rcases except_bind_error.mp h with lost | ⟨_, _, found⟩
    · exact row lost
    · cases found

section Begin

variable {host : Host} {clk : Clock} {input r : Request} {custom : List CustomCounter} {c : Counter}
  {row : TaskRow} {db : Db}

/-- `Begin` packs the reopened store and records what it got. -/
theorem begin_eq (h : Admissible input custom r c row db) :
    begin host clk input custom db =
      match pack host r c (db.reopened row) with
      | .error e => .error e
      | .ok payload =>
          recordTurn host clk r row.reopenedRevision payload (db.reopened row) := by
  have idle : require (fun db : Db =>
      !db.turns.any fun t => t.taskId == r.taskId && t.status == .pending)
        (Failure.problem .busy "task already has an unfinished turn") db = .ok ((), db) := by
    refine require_ok.mpr ⟨?_, rfl⟩
    simp only [Bool.not_eq_true', List.any_eq_false, Bool.and_eq_true, beq_iff_eq, not_and]
    exact h.idle
  have here : (db.task? r.taskId).isSome := by
    rw [h.task]
    rfl
  obtain ⟨t, found⟩ := task_of_row here
  obtain ⟨row', there, own, status, revision, _⟩ := task_ok found
  rw [h.task] at there
  cases there
  have reopened : reopenTask t db = .ok (row.reopenedRevision, db.reopened row) := by
    unfold reopenTask TaskRow.reopenedRevision Db.reopened
    rw [status, revision]
    split
    · refine bind_ok.mpr ⟨(), _, ?_, rfl⟩
      rw [own]
      unfold updateTask
      rw [modify_ok, h.task]
    · rfl
  have run : begin host clk input custom db = createTurn host clk r c db := by
    unfold begin
    rw [h.normal]
    dsimp only [beginNormal]
    rw [h.unretired, h.unknown]
  rw [run]
  unfold createTurn
  refine (bind_of_ok idle).trans ((bind_of_ok (read_ok.mpr ⟨found, rfl⟩)).trans
    ((bind_of_ok reopened).trans ?_))
  cases packed : pack host r c (db.reopened row) with
  | error e => exact bind_of_error (by unfold Txn.read; rw [packed])
  | ok payload => exact bind_of_ok (read_ok.mpr ⟨packed, rfl⟩)

theorem preview_eq (h : Admissible input custom r c row db) :
    preview host input custom db = pack host r c db := by
  unfold preview
  rw [h.normal]
  rfl

/-- `Begin` runs out of budget where its packing does. -/
theorem begin_budget (h : Admissible input custom r c row db) :
    Budget (begin host clk input custom db) ↔ Budget (pack host r c (db.reopened row)) := by
  rw [begin_eq h]
  cases packed : pack host r c (db.reopened row) with
  | error e => exact budget_error
  | ok payload =>
    refine iff_of_false ?_ not_budget_ok
    rintro ⟨message, failed⟩
    exact recordTurn_raises host clk r row.reopenedRevision payload _ _ failed message rfl

/-- A turn that `Begin` makes here keeps the package of its packing. -/
theorem begin_package (h : Admissible input custom r c row db) {out : Turn} {db' : Db}
    (run : begin host clk input custom db = .ok (out, db')) :
    ∃ p t, pack host r c (db.reopened row) = .ok p ∧ db'.turn? r.requestId = some t ∧
      t.packageJson = encode p.toJson := by
  obtain ⟨r', c', normal, ⟨old, _, live, _⟩ | ⟨row', payload, basis, begun, _⟩⟩ := begin_ok run
  all_goals
    rw [h.normal] at normal
    cases normal
  · rw [h.unknown] at live
    cases live
  · have same := begun.task
    rw [h.task] at same
    cases same
    refine ⟨payload, newTurn host clk r row.reopenedRevision payload, begun.packed, ?_, rfl⟩
    unfold Db.turn?
    rw [congrArg Journal.turns begun.journal]
    show (db.turns ++ [newTurn host clk r row.reopenedRevision payload]).find? _ = _
    have none_ : db.turns.find? (·.requestId == r.requestId) = none := h.unknown
    rw [List.find?_append, none_]
    simp [newTurn]

/-- Over a task that is not archived, the two pack the same store. -/
theorem shows_of_not_archived (h : Admissible input custom r c row db)
    (status : row.status ≠ .archived) : PreviewShows host clk input custom r.requestId db := by
  have same : db.reopened row = db := by
    unfold Db.reopened
    rw [if_neg status]
  constructor
  · intro out db' run
    obtain ⟨p, t, packed, live, stored⟩ := begin_package h run
    rw [same] at packed
    exact ⟨p, t, (preview_eq h).trans packed, live, stored⟩
  · rw [preview_eq h, begin_budget h, same]

end Begin

/-! ## A package quotes the status of its task -/

/-- The messages of a packing are those of its envelope, which is about the task `t`. -/
structure Quotes (r : Request) (t : Task) (p : Packing) : Prop where
  task : p.env.task = t
  payload : p.payload = messages r p.env

section Quotes

variable {host : Host} {r : Request} {c : Counter} {allowance : Int} {t : Task}

theorem Quotes.admitAtom {p next : Packing} {ev : Evidence} {fact : Option PackedFact}
    (h : Quotes r t p) (run : admitAtom r c allowance p ev fact = .ok next) : Quotes r t next := by
  unfold Cmpath.admitAtom at run
  split at run
  · cases run
    exact h
  · obtain ⟨n, _, kept⟩ := except_bind_ok.mp run
    split at kept
    · cases kept
      exact ⟨h.task, rfl⟩
    · cases kept
      exact ⟨h.task, h.payload⟩

theorem Quotes.admitAll {candidates : List (Evidence × Option PackedFact)} {done : Packing} :
    ∀ {p : Packing}, Quotes r t p → admitAll r c allowance p candidates = .ok done →
      Quotes r t done := by
  induction candidates with
  | nil =>
    intro p h run
    cases run
    exact h
  | cons candidate rest ih =>
    intro p h run
    obtain ⟨next, first, later⟩ := except_bind_ok.mp run
    exact ih (h.admitAtom first) later

theorem pack_quotes {db : Db} {p : Package} (h : pack host r c db = .ok p) :
    ∃ t env, task r.taskId db = .ok t ∧ env.task = t ∧ p.messages = messages r env := by
  obtain ⟨t, found, rest⟩ := except_bind_ok.mp h
  obtain ⟨ids, _, rest⟩ := except_bind_ok.mp rest
  obtain ⟨used, _, rest⟩ := except_bind_ok.mp rest
  dsimp only at rest
  split at rest
  · simp [problem] at rest
  · obtain ⟨facts, _, rest⟩ := except_bind_ok.mp rest
    obtain ⟨withFacts, first, rest⟩ := except_bind_ok.mp rest
    obtain ⟨ranked, _, rest⟩ := except_bind_ok.mp rest
    obtain ⟨withRanked, second, rest⟩ := except_bind_ok.mp rest
    obtain ⟨done, third, rest⟩ := except_bind_ok.mp rest
    cases rest
    have start : Quotes r t ⟨⟨t, [], []⟩, messages r ⟨t, [], []⟩, used, [], 0, 2⟩ := ⟨rfl, rfl⟩
    have quotes := ((start.admitAll first).admitAll second).admitAll third
    exact ⟨t, done.env, found, quotes.task, quotes.payload⟩

end Quotes

/-- What the marshalled envelope starts with: the task up to its status. -/
theorem envelope_head (env : Envelope) :
    ∃ rest, env.toJson.marshal =
      Text.lit "\x7b\"task\":\x7b\"id\":" ++ (Text.ofInt env.task.id ++
        (Text.lit ",\"title\":" ++ (Json.quote env.task.title ++
          (Text.lit ",\"status\":" ++ (Json.quote env.task.status.text ++ rest))))) := by
  have name : Json.quote (Text.lit "task") = Text.lit "\"task\"" ∧
      Json.quote (Text.lit "id") = Text.lit "\"id\"" ∧
        Json.quote (Text.lit "title") = Text.lit "\"title\"" ∧
          Json.quote (Text.lit "status") = Text.lit "\"status\"" := by decide
  simp only [Envelope.toJson, Task.toJson, Json.marshal, Json.marshalFields, name,
    List.append_assoc, List.cons_append]
  exact ⟨_, rfl⟩

/-- Envelopes about a task under two statuses are different texts. -/
theorem marshal_status {a b : Envelope} (id : a.task.id = b.task.id)
    (title : a.task.title = b.task.title) (differ : a.task.status ≠ b.task.status) :
    a.toJson.marshal ≠ b.toJson.marshal := by
  intro same
  obtain ⟨_, first⟩ := envelope_head a
  obtain ⟨_, second⟩ := envelope_head b
  rw [first, second, id, title] at same
  have status := List.append_cancel_left (List.append_cancel_left (List.append_cancel_left
    (List.append_cancel_left (List.append_cancel_left same))))
  have texts := (Json.quote_cancel status).1
  cases one : a.task.status <;> cases two : b.task.status <;> rw [one, two] at texts differ
  · exact differ rfl
  · exact absurd texts (by decide)
  · exact absurd texts (by decide)
  · exact differ rfl

theorem scrubText_append (s t : Text) :
    Json.scrubText (s ++ t) = Json.scrubText s ++ Json.scrubText t := List.map_append

/-- So are the messages, also once their JSON is read back. -/
theorem messages_status {r : Request} {a b : Envelope} (id : a.task.id = b.task.id)
    (title : a.task.title = b.task.title) (differ : a.task.status ≠ b.task.status) :
    (messages r a).map (fun m => Json.scrubText m.content) ≠
      (messages r b).map (fun m => Json.scrubText m.content) := by
  intro same
  unfold messages at same
  rw [List.map_append, List.map_append] at same
  have content := (List.cons.inj (List.append_cancel_left same)).1
  have read : ∀ env : Envelope, Json.scrubText env.toJson.marshal = env.toJson.marshal :=
    fun env => Json.scrubText_of_valid (Json.valid_marshal _)
  dsimp only at content
  rw [scrubText_append, scrubText_append, read, read] at content
  exact marshal_status id title differ (List.append_cancel_left content)

/-- The messages of a package as its JSON is read back. -/
theorem encode_messages (p : Package) :
    (Package.ofJson (encode p.toJson)).messages.map (·.content) =
      p.messages.map fun m => Json.scrubText m.content := by
  have items : ∀ ms : List Message,
      ((Json.scrubItems (ms.map Message.toJson)).map Message.ofJson).map (·.content) =
        ms.map fun m => Json.scrubText m.content := by
    intro ms
    induction ms with
    | nil => rfl
    | cons m rest ih => exact congrArg (Json.scrubText m.content :: ·) ih
  exact items p.messages

section Exact

variable {host : Host} {clk : Clock} {input r : Request} {custom : List CustomCounter} {c : Counter}
  {row : TaskRow} {db : Db}

/-- Over an archived task, `Begin` never persists what `Preview` shows. -/
theorem not_shows_of_archived (h : Admissible input custom r c row db)
    (status : row.status = .archived) {out : Turn} {db' : Db}
    (run : begin host clk input custom db = .ok (out, db')) :
    ¬ PreviewShows host clk input custom r.requestId db := by
  intro shows
  obtain ⟨p, t, shown, live, stored⟩ := shows.package out db' run
  obtain ⟨q, u, packed, live', stored'⟩ := begin_package h run
  rw [live] at live'
  cases live'
  rw [preview_eq h] at shown
  obtain ⟨before, env, found, about, quoted⟩ := pack_quotes shown
  obtain ⟨after, env', found', about', quoted'⟩ := pack_quotes packed
  have id := task?_id h.task
  have reopened : (db.reopened row).task? r.taskId = some row.reopen := by
    unfold Db.task?
    rw [reopened_tasks, if_pos status, id]
    exact Table.find?_replace_self h.task id
  have one : before.id = after.id ∧ before.title = after.title ∧
      before.status = .archived ∧ after.status = .opened := by
    unfold task at found found'
    rw [h.task] at found
    rw [reopened] at found'
    cases found
    cases found'
    exact ⟨rfl, rfl, status, rfl⟩
  have same : encode p.toJson = encode q.toJson := stored.symm.trans stored'
  have texts : (Package.ofJson (encode p.toJson)).messages.map (·.content) =
      (Package.ofJson (encode q.toJson)).messages.map (·.content) := by rw [same]
  rw [encode_messages, encode_messages, quoted, quoted'] at texts
  refine messages_status ?_ ?_ ?_ texts
  · rw [about, about']
    exact one.1
  · rw [about, about']
    exact one.2.1
  · rw [about, about', one.2.2.1, one.2.2.2]
    decide

/-- **What a preview shows.** Of a request that `Begin` gets as far as packing, `Preview` shows what
    `Begin` persists whenever the task is not archived, and where `Begin` makes the turn only
    then. -/
theorem preview_exact (host : Host) (clk : Clock) (h : Admissible input custom r c row db) :
    (row.status ≠ .archived → PreviewShows host clk input custom r.requestId db) ∧
      ∀ out db', begin host clk input custom db = .ok (out, db') →
        (PreviewShows host clk input custom r.requestId db ↔ row.status ≠ .archived) := by
  refine ⟨shows_of_not_archived h, fun out db' run => ⟨fun shows status => ?_, shows_of_not_archived h⟩⟩
  exact not_shows_of_archived h status run shows

end Exact

/-! ## Previews in the small store -/

/-- A task that was archived again. -/
def archivedTask : List Step :=
  [plainStep (.createTask { title := Text.lit "t" }), ⟨plainClock, .memory (.archive 1)⟩]

def archivedDb : Db := runSteps plainHost .empty archivedTask

theorem admissible_of_status {db : Db} {status : TaskStatus}
    (h : (db.retired? (Text.lit "r")).isNone && (db.turn? (Text.lit "r")).isNone &&
      db.turns.isEmpty && (db.task? 1).any (·.status == status)) :
    ∃ r c row, Admissible plainRequest [plainCounter] r c row db ∧ row.status = status ∧
      r.requestId = Text.lit "r" := by
  simp only [Bool.and_eq_true, Option.isNone_iff_eq_none, List.isEmpty_iff, Option.any_eq_true,
    beq_iff_eq] at h
  obtain ⟨⟨⟨unretired, unknown⟩, none_⟩, row, found, own⟩ := h
  obtain ⟨⟨r, c⟩, normal⟩ := exists_ok (x := normalizeRequest plainRequest [plainCounter]) (by decide)
  have kept := (normalizeRequest_ok normal).kept
  have id : r.requestId = Text.lit "r" := congrArg Request.requestId kept
  have task : r.taskId = 1 := congrArg Request.taskId kept
  rw [← id] at unretired unknown
  rw [← task] at found
  refine ⟨r, c, row, ⟨normal, unretired, unknown, fun t member => ?_, found⟩, own, id⟩
  rw [none_] at member
  exact absurd member List.not_mem_nil

/-- The first turn of a task is previewed as it is begun. -/
theorem preview_exact_plain :
    PreviewShows plainHost plainClock plainRequest [plainCounter] (Text.lit "r")
      (runSteps plainHost .empty [plainStep (.createTask { title := Text.lit "t" })]) := by
  obtain ⟨r, c, row, admissible, open_, id⟩ := @admissible_of_status
    (runSteps plainHost .empty [plainStep (.createTask { title := Text.lit "t" })]) .opened
    (by decide +kernel)
  rw [← id]
  exact (preview_exact plainHost plainClock admissible).1 (by rw [open_]; decide)

/-- The first turn of an archived task is not. -/
theorem preview_archived : Reachable plainHost archivedDb ∧
    (∃ r c row, Admissible plainRequest [plainCounter] r c row archivedDb) ∧
    (∃ out, begin plainHost plainClock plainRequest [plainCounter] archivedDb = .ok out) ∧
    ¬ PreviewShows plainHost plainClock plainRequest [plainCounter] (Text.lit "r") archivedDb := by
  obtain ⟨r, c, row, admissible, archived, id⟩ := @admissible_of_status archivedDb .archived
    (by decide +kernel)
  obtain ⟨⟨out, db'⟩, run⟩ := exists_ok
    (x := begin plainHost plainClock plainRequest [plainCounter] archivedDb) (by decide +kernel)
  refine ⟨⟨archivedTask, rfl⟩, ⟨r, c, row, admissible⟩, ⟨_, run⟩, ?_⟩
  rw [← id]
  exact not_shows_of_archived admissible archived run

end Cmpath
