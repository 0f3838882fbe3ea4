import Cmpath.Autosave.DryRun

/-!
# What a batch records

After a batch of autosave the task has its new messages, and one more `autosave_state` fact where the
state has evidence (`Committed`). The next call reads from it what was stored, cut to the caps
(`State.reread`).
-/

namespace Cmpath
open Lib Lib.Txn

namespace TaskMemory

variable {clk : Clock} {db db' : Db}

/-- `set_fact` adds one row. -/
theorem setFact_recorded {taskId evidenceId : Int} {key : Text} {value : Json} {retracted : Bool}
    {u : Unit} (h : setFact clk taskId key value evidenceId retracted db = .ok (u, db')) :
    ∃ f, db'.facts = db.facts ++ [f] ∧ f.place = (taskId, key.strip) ∧ f.value = value ∧
      db'.messages = db.messages ∧ db'.tasks = db.tasks ∧ db'.aliases = db.aliases := by
  simp only [setFact, positive, bindable, bindableJson, event, bind_ok, ensure_ok, require_ok] at h
  obtain ⟨_, _, ⟨_, rfl⟩, row, _, task, _, _, ⟨_, rfl⟩, _, _, ⟨_, rfl⟩, _, _, ⟨_, rfl⟩, _, _,
    ⟨_, rfl⟩, _, _, ⟨_, rfl⟩, _, _, inserted, logged⟩ := h
  obtain ⟨_, rfl⟩ := taskRow_ok task
  rw [insertEvent_ok logged, (insertFact_ok inserted).2]
  exact ⟨_, rfl, rfl, rfl, rfl, rfl, rfl⟩

end TaskMemory

namespace Autosave

variable {py : Python} {cfg : Config} {clk : Nat → Clock} {db left : Db} {id : Int} {s : State}

/-! ## Values that were stored -/

theorem mem_heldItems {repr : List Char → List Char} {items : List Json} {j : Json} :
    j ∈ Json.heldItems repr items ↔ ∃ x ∈ items, j = x.held repr := by
  induction items with
  | nil => simp [Json.heldItems]
  | cons x rest ih => simp [Json.heldItems, ih]

/-- A text is listed among values as they are read exactly when it was stored. -/
theorem listed_heldItems {repr : List Char → List Char} (t : Text) (items : List Json) :
    listed t (Json.heldItems repr items) = listed t items := by
  unfold listed
  induction items with
  | nil => rfl
  | cons x rest ih =>
    rw [Json.heldItems, List.any_cons, List.any_cons, ih]
    cases x <;> rfl

theorem listed_iff {text : Text} {items : List Json} : listed text items = true ↔ .str text ∈ items := by
  unfold listed
  rw [List.any_eq_true]
  constructor
  · rintro ⟨j, member, hit⟩
    cases j with
    | str s =>
      have same : s = text := by simpa using hit
      rwa [same] at member
    | _ => cases hit
  · intro member
    exact ⟨_, member, by simp⟩

theorem mem_heldFields {repr : List Char → List Char} {fields : List (Text × Json)} {f : Text × Json} :
    f ∈ Json.heldFields repr fields ↔ ∃ g ∈ fields, f = (g.1, g.2.held repr) := by
  induction fields with
  | nil => simp [Json.heldFields]
  | cons g rest ih =>
    obtain ⟨k, x⟩ := g
    simp [Json.heldFields, ih]

theorem heldFields_keys {repr : List Char → List Char} (fields : List (Text × Json)) :
    (Json.heldFields repr fields).map Prod.fst = fields.map Prod.fst := by
  induction fields with
  | nil => rfl
  | cons g rest ih =>
    obtain ⟨k, x⟩ := g
    rw [Json.heldFields, List.map_cons, List.map_cons, ih]

theorem mem_lastOf {α : Type} {cap : Int} {l : List α} {x : α} (h : x ∈ lastOf cap l) : x ∈ l :=
  List.mem_of_mem_drop h

/-- The last entry is kept whatever the cap. -/
theorem lastOf_concat {α : Type} (cap : Int) (l : List α) (x : α) :
    ∃ kept, lastOf cap (l ++ [x]) = kept ++ [x] := by
  have room : 1 ≤ (max 1 cap).toNat := by omega
  unfold lastOf
  rw [List.drop_append_of_le_length (by simp)]
  exact ⟨_, rfl⟩

/-- A list that fits is kept whole. -/
theorem lastOf_of_le {α : Type} {cap : Int} {l : List α} (fits : l.length ≤ cap) : lastOf cap l = l := by
  have none_ : l.length - (max 1 cap).toNat = 0 := by omega
  rw [lastOf, none_, List.drop_zero]

/-! ## The state fact -/

/-- The state the next call reads. -/
def State.reread (py : Python) (cfg : Config) (s : State) (evidenceId : Int) : State where
  seen := Json.heldItems py.floatRepr (lastOf cfg.seenCap s.seen)
  hashes := Json.heldItems py.floatRepr (lastOf cfg.hashCap s.hashes)
  cursors := Json.dict (Json.heldFields py.floatRepr (lastOf cfg.cursorCap s.cursors))
  lastEvidence := some evidenceId

theorem ofJson_payload (py : Python) (cfg : Config) (s : State) (evidenceId : Int) :
    State.ofJson ((s.payload cfg evidenceId).held py.floatRepr) = .ok (s.reread py cfg evidenceId) := by
  have keys : ∀ a b c d : Json, (([(Text.lit "seen", a), (Text.lit "hashes", b),
      (Text.lit "cursors", c), (Text.lit "last_evidence", d)] : List (Text × Json)).map Prod.fst).Nodup := by
    intro a b c d
    show [Text.lit "seen", Text.lit "hashes", Text.lit "cursors", Text.lit "last_evidence"].Nodup
    decide
  unfold State.payload
  rw [Json.held]
  simp only [Json.heldFields, Json.held]
  rw [Json.dict_of_nodup (keys _ _ _ _)]
  rfl

/-- What a batch leaves of a task: its messages at the end, and the state where it has evidence. -/
structure Committed (py : Python) (cfg : Config) (db left : Db) (id : Int) (new : List MessageRow)
    (s : State) : Prop where
  kept : Kept py.toHost left
  tasks : left.tasks = db.tasks
  aliases : left.aliases = db.aliases
  messages : left.messages = db.messages ++ new
  own : ∀ m ∈ new, m.taskId = id
  facts : (left.facts = db.facts ∧ s.lastEvidence = none) ∨
    ∃ f evidenceId, left.facts = db.facts ++ [f] ∧ f.place = (id, stateKey) ∧
      s.lastEvidence = some evidenceId ∧ f.value = s.payload cfg evidenceId ∧
        (s.payload cfg evidenceId).sound = true

namespace Committed

variable {new : List MessageRow}

theorem here (c : Committed py cfg db left id new s) {other : Int} :
    (left.task? other).isSome ↔ (db.task? other).isSome := by
  unfold Db.task?
  rw [c.tasks]

/-- The next call reads the state, if it has evidence. -/
theorem state (c : Committed py cfg db left id new s) {evidenceId : Int}
    (last : s.lastEvidence = some evidenceId) :
    State.ofJson (stateValue py left id) = .ok (s.reread py cfg evidenceId) := by
  rcases c.facts with ⟨_, none_⟩ | ⟨f, e, facts, place, same, value, _⟩
  · rw [last] at none_
    cases none_
  · rw [last] at same
    cases same
    have row : left.lastFact (id, stateKey) = some f := by
      unfold Db.lastFact
      rw [facts, List.filter_append, List.filter_cons_of_pos (by simp [place]), List.filter_nil,
        List.getLast?_concat]
    unfold stateValue
    rw [row]
    show State.ofJson (f.value.held py.floatRepr) = _
    rw [value]
    exact ofJson_payload py cfg s evidenceId

/-- Without evidence nothing is recorded. -/
theorem unrecorded (c : Committed py cfg db left id new s) (last : s.lastEvidence = none) :
    left.facts = db.facts := by
  rcases c.facts with ⟨same, _⟩ | ⟨_, _, _, _, some_, _⟩
  · exact same
  · rw [last] at some_
    cases some_

/-- Other tasks are left alone. -/
theorem apart (c : Committed py cfg db left id new s) {other : Int} (ne : other ≠ id) :
    Apart other db left := by
  refine ⟨fun _ => ?_, fun _ m member _ => ?_⟩
  · rcases c.facts with ⟨same, _⟩ | ⟨f, e, facts, place, _⟩
    · unfold Db.lastFact
      rw [same]
    · have misses : (f.place == (other, stateKey)) = false := by
        rw [place, beq_eq_false_iff_ne]
        intro same
        exact ne (congrArg Prod.fst same).symm
      unfold Db.lastFact
      rw [facts, List.filter_append, List.filter_cons_of_neg (by simp [misses]), List.filter_nil,
        List.append_nil]
  · rw [c.messages]
    exact List.mem_append_left _ member

end Committed

/-- `append` touches messages alone. -/
theorem append_recorded {clock : Clock} {taskId evidenceId : Int} {role content : Text} {source : Json}
    (h : TaskMemory.append clock taskId role content source db = .ok (evidenceId, left)) :
    left.facts = db.facts ∧ left.tasks = db.tasks ∧ left.aliases = db.aliases := by
  refine (append_frame h).1.rel (R := fun a b => b.facts = a.facts ∧ b.tasks = a.tasks ∧ b.aliases = a.aliases)
    (fun _ => ⟨rfl, rfl, rfl⟩) (fun _ _ _ first second => ?_) fun w db telling _ => ?_
  · obtain ⟨facts, tasks, aliases⟩ := first
    obtain ⟨facts', tasks', aliases'⟩ := second
    exact ⟨facts'.trans facts, tasks'.trans tasks, aliases'.trans aliases⟩
  · cases w <;> first | exact ⟨rfl, rfl, rfl⟩ | exact telling.elim

/-- What `storeState` records after the messages of its batch. -/
theorem storeState_committed {clock : Clock} {mid : Db} {new : List MessageRow} {u : Unit}
    (kept : Kept py.toHost mid) (tasks : mid.tasks = db.tasks) (aliases : mid.aliases = db.aliases)
    (facts : mid.facts = db.facts) (messages : mid.messages = db.messages ++ new)
    (own : ∀ m ∈ new, m.taskId = id) (h : storeState cfg clock id s mid = .ok (u, left)) :
    Committed py cfg db left id new s := by
  unfold storeState at h
  cases last : s.lastEvidence with
  | none =>
    rw [last] at h
    obtain ⟨_, rfl⟩ := pure_ok.mp h
    exact ⟨kept, tasks, aliases, messages, own, .inl ⟨facts, last⟩⟩
  | some e =>
    rw [last] at h
    obtain ⟨f, facts', place, value, messages', tasks', aliases'⟩ := TaskMemory.setFact_recorded h
    have factual := (TaskMemory.setFact_total (by decide) (by decide)).mp ⟨u, left, h⟩
    have run : (MemoryOp.setFact id stateKey (s.payload cfg e) e false).run py.toHost clock mid =
        .ok (_, left) := responding_ok.mpr ⟨u, h, rfl⟩
    have after : Kept py.toHost left := kept.memory run
    rw [stateKey_strip] at place
    exact ⟨after, tasks'.trans tasks, aliases'.trans aliases, messages'.trans messages, own,
      .inr ⟨f, e, by rw [facts', facts], place, last, value, factual.sound⟩⟩

/-! ## The batches -/

/-- The batch of a turn stores its prompt with its key and its digest. -/
theorem commitTurn_committed {t : Turn} {p : Prepared} {r : SaveTurn} (kept : Kept py.toHost db)
    (h : commitTurn cfg clk t id s p db = .ok (r, left)) :
    ∃ m, r = .saved id (citation id m.id) p.content.length p.truncated ∧ m.role = .user ∧
      m.content = p.content ∧ m.source = t.source p.truncated ∧
      left.message? m.id = some m ∧
      Committed py cfg db left id [m]
        { s.turned cfg t.key p.digest with lastEvidence := some m.id } := by
  unfold commitTurn at h
  obtain ⟨e, mid, put, h⟩ := bind_ok.mp h
  obtain ⟨_, last, stored, h⟩ := bind_ok.mp h
  obtain ⟨rfl, rfl⟩ := pure_ok.mp h
  obtain ⟨m, messages, rfl, own, source, _, content, role, _⟩ := TaskMemory.append_ok _ put
  obtain ⟨facts, tasks, aliases⟩ := append_recorded put
  have run : (MemoryOp.append id (Text.lit "user") p.content (t.source p.truncated)).run py.toHost
      (clk 0) db = .ok (_, mid) := responding_ok.mpr ⟨m.id, put, rfl⟩
  have after : Kept py.toHost mid := kept.memory run
  have committed : Committed py cfg db left id [m]
      { s.turned cfg t.key p.digest with lastEvidence := some m.id } :=
    storeState_committed after tasks aliases facts messages (by simpa using own) stored
  refine ⟨m, rfl, ?_, content, source, ?_, committed⟩
  · have user : Role.ofText? (Text.lit "user") = some .user := by decide
    rw [user] at role
    exact (Option.some.inj role).symm
  · refine committed.kept.reachable.messageKeys.keyed.find?_eq ?_
    rw [committed.messages]
    exact List.mem_append_right _ List.mem_cons_self

/-- What the rows of a pass leave of a store. -/
theorem appendRows_committed {appendClock : Nat → Clock} {t : Transcript} {s s' : State}
    {rows : List Row} (kept : Kept py.toHost db)
    (h : appendRows cfg appendClock t id s rows db = .ok (s', left)) :
    Kept py.toHost left ∧ left.facts = db.facts ∧ left.tasks = db.tasks ∧
      left.aliases = db.aliases := by
  induction rows generalizing s db with
  | nil =>
    obtain ⟨rfl, rfl⟩ := pure_ok.mp h
    exact ⟨kept, rfl, rfl, rfl⟩
  | cons r rest ih =>
    unfold appendRows at h
    obtain ⟨e, mid, put, later⟩ := bind_ok.mp h
    have run : (MemoryOp.append id r.role.text r.prepared.content (t.source r)).run py.toHost
        (appendClock rest.length) db = .ok (_, mid) := responding_ok.mpr ⟨e, put, rfl⟩
    have after : Kept py.toHost mid := kept.memory run
    obtain ⟨kept', facts', tasks', aliases'⟩ := ih after later
    obtain ⟨facts, tasks, aliases⟩ := append_recorded put
    exact ⟨kept', facts'.trans facts, tasks'.trans tasks, aliases'.trans aliases⟩

/-- The state a pass records, with its evidence. -/
def State.after (cfg : Config) (s : State) (t : Transcript) (f : WireFile) (start : Int) (done : Scan)
    (last : Option Int) : State :=
  { s.passed cfg t f start done with lastEvidence := last }

/-- The batch of a pass stores its rows with their digests, and its cursor. -/
theorem commitPass_committed {t : Transcript} {f : WireFile} {start : Int} {reset : Bool} {done : Scan}
    {r : IngestReport} (kept : Kept py.toHost db)
    (h : commitPass cfg clk t id s f start reset done db = .ok (r, left)) :
    ∃ new last,
      new.map (fun m => (m.taskId, m.role, m.content, m.source)) =
        done.rows.map (fun r => (id, r.role, r.prepared.content, t.source r)) ∧
      ((done.rows = [] ∧ last = s.lastEvidence) ∨
        ∃ e, last = some e ∧ ∃ m ∈ left.messages, m.id = e ∧ m.taskId = id) ∧
      Committed py cfg db left id new (s.after cfg t f start done last) := by
  unfold commitPass at h
  obtain ⟨s', mid, rows, h⟩ := bind_ok.mp h
  obtain ⟨_, last, stored, h⟩ := bind_ok.mp h
  obtain ⟨_, rfl⟩ := pure_ok.mp h
  have regular := Regular.of_reachable kept.reachable
  obtain ⟨after, facts, tasks, aliases⟩ := appendRows_committed kept rows
  obtain ⟨_, _, last, state, ended⟩ := appendRows_stored regular rows
  obtain ⟨new, messages, same⟩ := appendRows_ok rows
  have own : ∀ m ∈ new, m.taskId = id := by
    intro m member
    have listed_ := List.mem_map_of_mem (f := fun m => (m.taskId, m.role, m.content, m.source)) member
    rw [same] at listed_
    obtain ⟨_, _, equal_⟩ := List.mem_map.mp listed_
    exact (congrArg Prod.fst equal_).symm
  have recorded : (if start < done.scannedTo then
      { s' with cursors := Json.assign s'.cursors (cursorKey t.path) (cursorOf f done) } else s') =
        s.after cfg t f start done last := by
    rw [state]
    unfold State.after State.passed
    split <;> rfl
  rw [recorded] at stored
  have committed : Committed py cfg db left id new (s.after cfg t f start done last) :=
    storeState_committed after tasks aliases facts messages own stored
  refine ⟨new, last, same, ?_, committed⟩
  rcases ended with ⟨none_, same, _⟩ | ⟨_, e, same, _, m, found, mine⟩
  · exact .inl ⟨none_, same⟩
  · refine .inr ⟨e, same, m, ?_, message?_id found, mine⟩
    rw [storeState_messages stored]
    exact List.mem_of_find?_eq_some found

end Autosave

end Cmpath
