import Cmpath.Autosave.Record

/-!
# How a call changes a state

A call of autosave leaves the state of a task as it was, or adds a turn or a pass to it (`Change`). What
a state lists stays what was saved: each key belongs to a saved turn of the task, each digest is that of
a row of the task, each cursor is one a pass left (`Recorded`).
-/

namespace Cmpath
open Lib Lib.Txn

namespace Autosave

variable {py : Python} {cfg : Config} {clk : Nat → Clock} {db db' : Db} {id : Int}

/-! ## Cursors -/

/-- A cursor as a pass leaves it. -/
structure Cursor where
  line : Int
  mtime : Json
  size : Int
  head : Text
  complete : Bool

namespace Cursor

def json (c : Cursor) : Json :=
  .obj [(Text.lit "line", .int c.line), (Text.lit "mtime", c.mtime), (Text.lit "size", .int c.size),
    (Text.lit "head", .str c.head), (Text.lit "complete", .bool c.complete),
    (Text.lit "parser", .int parserVersion)]

/-- The cursor as the next call reads it. -/
def reread (repr : List Char → List Char) (c : Cursor) : Cursor := { c with mtime := c.mtime.held repr }

theorem held_json (repr : List Char → List Char) (c : Cursor) :
    c.json.held repr = (c.reread repr).json := by
  have keys : ∀ a b c d e f : Json, (([(Text.lit "line", a), (Text.lit "mtime", b),
      (Text.lit "size", c), (Text.lit "head", d), (Text.lit "complete", e),
      (Text.lit "parser", f)] : List (Text × Json)).map Prod.fst).Nodup := by
    intro a b c d e f
    show [Text.lit "line", Text.lit "mtime", Text.lit "size", Text.lit "head", Text.lit "complete",
      Text.lit "parser"].Nodup
    decide
  unfold json
  rw [Json.held]
  simp only [Json.heldFields, Json.held]
  rw [Json.dict_of_nodup (keys _ _ _ _ _ _)]
  rfl

theorem json_inj {c c' : Cursor} (h : c.json = c'.json) : c = c' := by
  cases c
  cases c'
  simpa [json] using h

/-- What a pass reads of it. -/
def entry (c : Cursor) : Entry where
  isDict := true
  start := c.line
  mtime := c.mtime
  size := .int c.size
  head := .str c.head
  complete := c.complete
  parser := .int parserVersion

theorem entry_ofJson (c : Cursor) : Entry.ofJson (some c.json) = .ok c.entry := by
  unfold entry
  cases complete : c.complete <;>
  · unfold json
    rw [complete]
    rfl

end Cursor

/-- The cursor of a pass. -/
def Scan.cursor (f : WireFile) (done : Scan) : Cursor :=
  ⟨done.scannedTo, f.mtime, f.size, f.head, !done.stoppedEarly⟩

theorem cursorOf_eq (f : WireFile) (done : Scan) : cursorOf f done = (done.cursor f).json := rfl

/-! ## Lists that only grow by what is stored -/

theorem mem_hashed {hashes : List Json} {rows : List Row} {j : Json} (h : j ∈ hashed cfg hashes rows) :
    j ∈ hashes ∨ ∃ r ∈ rows, j = .str r.prepared.digest := by
  induction rows generalizing hashes with
  | nil => exact .inl h
  | cons r rest ih =>
    rcases ih h with old | ⟨r', member, same⟩
    · rcases List.mem_append.mp (mem_lastOf old) with old | new
      · exact .inl old
      · exact .inr ⟨r, List.mem_cons_self, List.mem_singleton.mp new⟩
    · exact .inr ⟨r', List.mem_cons_of_mem _ member, same⟩

theorem mem_assign {fields : List (Text × Json)} {key : Text} {value : Json} {f : Text × Json}
    (h : f ∈ Json.assign fields key value) : f ∈ fields ∨ f = (key, value) := by
  unfold Json.assign at h
  split at h
  · obtain ⟨g, member, same⟩ := List.mem_map.mp h
    split at same
    · exact .inr same.symm
    · exact .inl (same ▸ member)
  · rcases List.mem_append.mp h with old | new
    · exact .inl old
    · exact .inr (List.mem_singleton.mp new)

theorem assign_keys {fields : List (Text × Json)} {key : Text} {value : Json}
    (h : (fields.map Prod.fst).Nodup) : ((Json.assign fields key value).map Prod.fst).Nodup := by
  unfold Json.assign
  by_cases known : fields.any (·.1 == key) = true
  · rw [if_pos known, List.map_map]
    have same : (Prod.fst ∘ fun f : Text × Json => if f.1 == key then (key, value) else f) =
        Prod.fst := by
      funext f
      by_cases hit : f.1 = key <;> simp [hit]
    rw [same]
    exact h
  · rw [if_neg known, List.map_append, List.nodup_append]
    refine ⟨h, List.nodup_singleton _, ?_⟩
    intro a old b new same
    obtain ⟨f, member, rfl⟩ := List.mem_map.mp old
    have named : b = key := by simpa using new
    exact known (List.any_eq_true.mpr ⟨f, member, by simp [same, named]⟩)

theorem nodup_lastOf {α : Type} {cap : Int} {l : List α} (h : l.Nodup) : (lastOf cap l).Nodup :=
  h.sublist (List.drop_sublist _ _)

theorem map_lastOf {α β : Type} (cap : Int) (l : List α) (f : α → β) :
    (lastOf cap l).map f = lastOf cap (l.map f) := by
  unfold lastOf
  rw [List.map_drop, List.length_map]

/-! ## Values that can be bound -/

theorem mem_dict {pairs : List (Text × Json)} {f : Text × Json} (h : f ∈ Json.dict pairs) : f ∈ pairs := by
  have grow : ∀ (pairs before : List (Text × Json)),
      f ∈ pairs.foldl (fun fields g => Json.assign fields g.1 g.2) before → f ∈ before ∨ f ∈ pairs := by
    intro pairs
    induction pairs with
    | nil => exact fun _ old => .inl old
    | cons g rest ih =>
      intro before member
      rcases ih _ member with old | later
      · refine (mem_assign old).imp_right fun same => ?_
        rw [same]
        exact List.mem_cons_self
      · exact .inr (List.mem_cons_of_mem _ later)
  exact (grow pairs [] h).resolve_left List.not_mem_nil

theorem soundItems_iff {items : List Json} :
    Json.soundItems items = true ↔ ∀ j ∈ items, j.sound = true := by
  induction items with
  | nil => simp [Json.soundItems]
  | cons x rest ih => simp [Json.soundItems, ih]

theorem soundFields_iff {fields : List (Text × Json)} :
    Json.soundFields fields = true ↔ ∀ f ∈ fields, Text.valid f.1 = true ∧ f.2.sound = true := by
  induction fields with
  | nil => simp [Json.soundFields]
  | cons f rest ih =>
    obtain ⟨k, x⟩ := f
    simp [Json.soundFields, ih]

mutual

theorem sound_held {repr : List Char → List Char} : ∀ {j : Json}, j.sound = true →
    (j.held repr).sound = true
  | .null, _ | .bool _, _ | .int _, _ => rfl
  | .num _, _ => rfl
  | .str _, h => h
  | .arr items, h => by
      rw [Json.held, Json.sound]
      exact soundItems_held h
  | .obj fields, h => by
      rw [Json.held, Json.sound]
      exact soundFields_iff.mpr fun f member => soundFields_iff.mp (soundFields_held h) f (mem_dict member)

theorem soundItems_held {repr : List Char → List Char} : ∀ {items : List Json},
    Json.soundItems items = true → Json.soundItems (Json.heldItems repr items) = true
  | [], _ => rfl
  | x :: rest, h => by
      rw [Json.soundItems, Bool.and_eq_true] at h
      rw [Json.heldItems, Json.soundItems, Bool.and_eq_true]
      exact ⟨sound_held h.1, soundItems_held h.2⟩

theorem soundFields_held {repr : List Char → List Char} : ∀ {fields : List (Text × Json)},
    Json.soundFields fields = true → Json.soundFields (Json.heldFields repr fields) = true
  | [], _ => rfl
  | (k, x) :: rest, h => by
      rw [Json.soundFields, Bool.and_eq_true, Bool.and_eq_true] at h
      rw [Json.heldFields, Json.soundFields, Bool.and_eq_true, Bool.and_eq_true]
      exact ⟨⟨h.1.1, sound_held h.1.2⟩, soundFields_held h.2⟩

end

/-- Every text of the state can be bound. -/
structure State.Spelled (s : State) : Prop where
  seen : Json.soundItems s.seen = true
  hashes : Json.soundItems s.hashes = true
  cursors : Json.soundFields s.cursors = true

theorem sound_payload {s : State} {evidenceId : Int} :
    (s.payload cfg evidenceId).sound = true ↔
      Json.soundItems (lastOf cfg.seenCap s.seen) = true ∧
        Json.soundItems (lastOf cfg.hashCap s.hashes) = true ∧
          Json.soundFields (lastOf cfg.cursorCap s.cursors) = true := by
  have valid : ∀ text : String, Text.valid (Text.lit text) = true := Text.valid_lit
  simp [State.payload, Json.sound, Json.soundFields, valid]

/-- What is read back can be bound again. -/
theorem State.reread_spelled {s : State} {evidenceId : Int}
    (h : (s.payload cfg evidenceId).sound = true) : (s.reread py cfg evidenceId).Spelled := by
  obtain ⟨seen, hashes, cursors⟩ := sound_payload.mp h
  exact ⟨soundItems_held seen, soundItems_held hashes, soundFields_iff.mpr fun f member =>
    soundFields_iff.mp (soundFields_held cursors) f (mem_dict member)⟩

/-! ## How a call changes a state -/

/-- The state of a task, as the next call reads it. -/
def stateOf (py : Python) (db : Db) (id : Int) : State :=
  ((State.ofJson (stateValue py db id)).toOption).getD .empty

theorem stateOf_eq {s : State} (h : State.ofJson (stateValue py db id) = .ok s) :
    stateOf py db id = s := by
  unfold stateOf
  rw [h]
  rfl

/-- What a call leaves of the state and the rows of a task: what was there, or what a turn or a pass
    of the call stored. -/
inductive Change (py : Python) (saves : Int → Turn → Prop) (scans : Transcript → Prop) (db left : Db)
    (id : Int) : State → State → Prop
  | keep {s : State} (rows : ∀ m ∈ db.messages, m.taskId = id → m ∈ left.messages) :
      Change py saves scans db left id s s
  | turn {s : State} {cfg : Config} {t : Turn} {p : Prepared} {m : MessageRow} (said : saves id t)
      (prepared : prepareText py t.prompt maxMessageChars = some p) (fresh : t.seenIn s p = false)
      (messages : left.messages = db.messages ++ [m]) (own : m.taskId = id)
      (content : m.content = p.content)
      (sound : ((s.turned cfg t.key p.digest).payload cfg m.id).sound = true) :
      Change py saves scans db left id s
        (State.reread py cfg { s.turned cfg t.key p.digest with lastEvidence := some m.id } m.id)
  | pass {s : State} {cfg : Config} {t : Transcript} {f : WireFile} {start : Int} {reset : Bool}
      {done : Scan} {mid : Db} {new : List MessageRow} {e : Int} (read : scans t)
      (file : t.file = some f) (planned : Planned py cfg t f (some id) mid s start reset done)
      (same : mid.messages = db.messages) (messages : left.messages = db.messages ++ new)
      (rows : new.map (fun m => (m.taskId, m.role, m.content, m.source)) =
        done.rows.map fun r => (id, r.role, r.prepared.content, t.source r))
      (evidence : (done.rows = [] ∧ s.lastEvidence = some e) ∨
        ∃ m ∈ left.messages, m.id = e ∧ m.taskId = id)
      (sound : ((s.after cfg t f start done (some e)).payload cfg e).sound = true) :
      Change py saves scans db left id s (State.reread py cfg (s.after cfg t f start done (some e)) e)

theorem Committed.old {new : List MessageRow} {left : Db} {s : State} {m : MessageRow}
    (c : Committed py cfg db left id new s) (member : m ∈ db.messages) : m ∈ left.messages := by
  rw [c.messages]
  exact List.mem_append_left _ member

/-- A row of a plan has the digest of its content, and the filter does not know it. -/
theorem Planned.row_of {t : Transcript} {f : WireFile} {taskId : Option Int} {s : State} {start : Int}
    {reset : Bool} {done : Scan} (p : Planned py cfg t f taskId db s start reset done) {r : Row}
    (member : r ∈ done.rows) :
    r.prepared.digest = contentHash py r.prepared.content ∧
      listed r.prepared.digest s.hashes = false ∧
        ((if reset then storedWireDigests py taskId (cursorKey t.path) db else []).contains
          r.prepared.digest) = false := by
  obtain ⟨k, rows, _⟩ := scan_rows p.scan (by simp [passCap])
  rw [rows, List.nil_append] at member
  obtain ⟨m, _, made⟩ := List.mem_filterMap.mp member
  obtain ⟨digest, fresh⟩ := row_fresh made
  rw [Bool.or_eq_false_iff] at fresh
  exact ⟨digest, fresh⟩

/-- A row of a plan that went through is stored. -/
theorem stored_of_rows {t : Transcript} {rows : List Row} {new : List MessageRow} {r : Row}
    (same : new.map (fun m => (m.taskId, m.role, m.content, m.source)) =
      rows.map fun r => (id, r.role, r.prepared.content, t.source r)) (member : r ∈ rows) :
    ∃ m ∈ new, m.taskId = id ∧ m.role = r.role ∧ m.content = r.prepared.content ∧
      m.source = t.source r := by
  have listed_ : (id, r.role, r.prepared.content, t.source r) ∈
      new.map fun m => (m.taskId, m.role, m.content, m.source) := by
    rw [same]
    exact List.mem_map_of_mem (f := fun r => (id, r.role, r.prepared.content, t.source r)) member
  obtain ⟨m, stored, equal_⟩ := List.mem_map.mp listed_
  exact ⟨m, stored, congrArg Prod.fst equal_, congrArg (fun q => q.2.1) equal_,
    congrArg (fun q => q.2.2.1) equal_, congrArg (fun q => q.2.2.2) equal_⟩

/-- The digest of what is prepared. -/
theorem prepared_digest {text : Text} {limit : Nat} {p : Prepared}
    (h : prepareText py text limit = some p) : p.digest = contentHash py p.content := by
  unfold prepareText at h
  dsimp only at h
  split at h
  · cases h
  · rw [← Option.some.inj h]

namespace Change

variable {saves : Int → Turn → Prop} {scans : Transcript → Prop} {left mid : Db}
  {s s' : State}

/-- Only the rows of the store count. -/
theorem of_messages (same : mid.messages = db.messages) (h : Change py saves scans mid left id s s') :
    Change py saves scans db left id s s' := by
  cases h with
  | keep rows => exact .keep (same ▸ rows)
  | turn said prepared fresh messages own content sound =>
    exact .turn said prepared fresh (same ▸ messages) own content sound
  | pass read file planned same' messages rows evidence sound =>
    exact .pass read file planned (same'.trans same) (same ▸ messages) rows evidence sound

/-- No row of the task goes. -/
theorem old (h : Change py saves scans db left id s s') {m : MessageRow} (member : m ∈ db.messages)
    (own : m.taskId = id) : m ∈ left.messages := by
  cases h with
  | keep rows => exact rows m member own
  | turn _ _ _ messages =>
    rw [messages]
    exact List.mem_append_left _ member
  | pass _ _ _ _ messages =>
    rw [messages]
    exact List.mem_append_left _ member

theorem spelled (h : Change py saves scans db left id s s') (old : s.Spelled) : s'.Spelled := by
  cases h with
  | keep => exact old
  | turn _ _ _ _ _ _ sound => exact State.reread_spelled sound
  | pass _ _ _ _ _ _ _ sound => exact State.reread_spelled sound

/-- The digests a call leaves are those of rows, if the ones before it are. -/
theorem hashes (h : Change py saves scans db left id s s')
    (rows : ∀ j ∈ s.hashes, ∃ m ∈ db.messages, m.taskId = id ∧ j = .str (contentHash py m.content)) :
    ∀ j ∈ s'.hashes, ∃ m ∈ left.messages, m.taskId = id ∧ j = .str (contentHash py m.content) := by
  have old : ∀ j ∈ s.hashes, ∃ m ∈ left.messages, m.taskId = id ∧
      j = .str (contentHash py m.content) := by
    intro j member
    obtain ⟨m, row, own, same⟩ := rows j member
    exact ⟨m, h.old row own, own, same⟩
  cases h with
  | keep => exact old
  | @turn cfg t p m _ prepared _ messages own content _ =>
    intro j member
    obtain ⟨x, stored, rfl⟩ := mem_heldItems.mp member
    rcases List.mem_append.mp (mem_lastOf (mem_lastOf stored)) with before | new
    · obtain ⟨m, row, own, rfl⟩ := old x before
      exact ⟨m, row, own, rfl⟩
    · refine ⟨m, ?_, own, ?_⟩
      · rw [messages]
        exact List.mem_append_right _ List.mem_cons_self
      · rw [List.mem_singleton.mp new, prepared_digest prepared, content]
        rfl
  | @pass cfg t f start reset done mid new e _ _ planned _ messages rows _ _ =>
    intro j member
    obtain ⟨x, stored, rfl⟩ := mem_heldItems.mp member
    rcases mem_hashed (mem_lastOf stored) with before | ⟨r, listed_, rfl⟩
    · obtain ⟨m, row, own, rfl⟩ := old x before
      exact ⟨m, row, own, rfl⟩
    · obtain ⟨m, row, own, _, content, _⟩ := stored_of_rows rows listed_
      refine ⟨m, ?_, own, ?_⟩
      · rw [messages]
        exact List.mem_append_right _ row
      · rw [(planned.row_of listed_).1, content]
        rfl

end Change

/-! ## What a state lists -/

/-- What the state of a task lists was saved; the ledger has the turns that were, each with its
    task. -/
structure Recorded (ledger : List (Int × Turn)) (py : Python) (db : Db) (id : Int) (s : State) :
    Prop where
  seen : ∀ j ∈ s.seen, ∃ u, (id, u) ∈ ledger ∧ j = .str u.key
  hashes : ∀ j ∈ s.hashes, ∃ m ∈ db.messages, m.taskId = id ∧ j = .str (contentHash py m.content)
  cursors : ∀ c ∈ s.cursors, ∃ cursor : Cursor, c.2 = cursor.json
  keys : (s.cursors.map Prod.fst).Nodup
  evidence : ∀ e, s.lastEvidence = some e → ∃ m ∈ db.messages, m.id = e ∧ m.taskId = id
  anchored : s.lastEvidence = none → s = .empty

theorem heldFields_keys_nodup {s : State} (h : (s.cursors.map Prod.fst).Nodup) :
    ((Json.heldFields py.floatRepr (lastOf cfg.cursorCap s.cursors)).map Prod.fst).Nodup := by
  rw [heldFields_keys, map_lastOf]
  exact nodup_lastOf h

/-- A cursor that is read back was recorded. -/
theorem mem_reread_cursors {s : State} {e : Int} {c : Text × Json}
    (h : c ∈ (s.reread py cfg e).cursors) :
    ∃ g ∈ s.cursors, c = (g.1, g.2.held py.floatRepr) := by
  obtain ⟨g, stored, same⟩ := mem_heldFields.mp (mem_dict h)
  exact ⟨g, mem_lastOf stored, same⟩

/-- A cursor after a pass is an old one of another file, or the new one. -/
theorem mem_after_cursors {s : State} {t : Transcript} {f : WireFile} {start : Int} {done : Scan}
    {last : Option Int} {c : Text × Json} (h : c ∈ (s.after cfg t f start done last).cursors) :
    c ∈ s.cursors ∨ start < done.scannedTo ∧ c = (cursorKey t.path, cursorOf f done) := by
  unfold State.after State.passed at h
  dsimp only at h
  split at h
  · rename_i moved
    exact (mem_assign h).imp_right fun same => ⟨moved, same⟩
  · exact .inl h

namespace Recorded

variable {ledger more : List (Int × Turn)} {s s' : State}

theorem empty : Recorded ledger py db id .empty :=
  ⟨nofun, nofun, nofun, List.nodup_nil, nofun, fun _ => rfl⟩

/-- What a batch records is read back. -/
theorem reread {evidenceId : Int} (seen : ∀ j ∈ s.seen, ∃ u, (id, u) ∈ ledger ∧ j = .str u.key)
    (hashes : ∀ j ∈ (s.reread py cfg evidenceId).hashes, ∃ m ∈ db.messages, m.taskId = id ∧
      j = .str (contentHash py m.content))
    (cursors : ∀ c ∈ s.cursors, ∃ cursor : Cursor, c.2 = cursor.json)
    (keys : (s.cursors.map Prod.fst).Nodup)
    (evidence : ∃ m ∈ db.messages, m.id = evidenceId ∧ m.taskId = id) :
    Recorded ledger py db id (s.reread py cfg evidenceId) := by
  have keys : ((Json.heldFields py.floatRepr (lastOf cfg.cursorCap s.cursors)).map Prod.fst).Nodup :=
    heldFields_keys_nodup keys
  refine ⟨fun j member => ?_, hashes, fun c member => ?_, ?_, fun e last => ?_, nofun⟩
  · obtain ⟨x, stored, rfl⟩ := mem_heldItems.mp member
    obtain ⟨u, listed_, rfl⟩ := seen x (mem_lastOf stored)
    exact ⟨u, listed_, rfl⟩
  · obtain ⟨g, stored, rfl⟩ := mem_reread_cursors member
    obtain ⟨cursor, same⟩ := cursors g stored
    exact ⟨cursor.reread py.floatRepr, by rw [same, Cursor.held_json]⟩
  · show ((Json.dict _).map Prod.fst).Nodup
    rw [Json.dict_of_nodup keys]
    exact keys
  · obtain rfl := Option.some.inj last
    exact evidence

/-- What a call leaves is recorded, if what was there is. -/
theorem change {saves : Int → Turn → Prop} {scans : Transcript → Prop} {left : Db}
    (h : Recorded ledger py db id s) (c : Change py saves scans db left id s s') (turns : ledger ⊆ more)
    (said : ∀ t, saves id t → (id, t) ∈ more) : Recorded more py left id s' := by
  have hashes := c.hashes h.hashes
  have seen : ∀ j ∈ s.seen, ∃ u, (id, u) ∈ more ∧ j = .str u.key := by
    intro j member
    obtain ⟨u, listed_, same⟩ := h.seen j member
    exact ⟨u, turns listed_, same⟩
  cases c with
  | keep rows =>
    refine ⟨seen, hashes, h.cursors, h.keys, fun e last => ?_, h.anchored⟩
    obtain ⟨m, stored, same, own⟩ := h.evidence e last
    exact ⟨m, rows m stored own, same, own⟩
  | @turn cfg t p m saves prepared _ messages own content _ =>
    refine reread (fun j member => ?_) hashes h.cursors h.keys ⟨m, ?_, rfl, own⟩
    · rcases List.mem_append.mp (mem_lastOf member) with old | new
      · exact seen j old
      · exact ⟨t, said t saves, List.mem_singleton.mp new⟩
    · rw [messages]
      exact List.mem_append_right _ List.mem_cons_self
  | @pass cfg t f start reset done mid new e _ _ planned _ messages rows evidence _ =>
    refine reread seen hashes (fun c member => ?_) ?_ ?_
    · rcases mem_after_cursors member with old | ⟨_, rfl⟩
      · exact h.cursors c old
      · exact ⟨done.cursor f, cursorOf_eq f done⟩
    · show ((State.passed cfg s t f start done).cursors.map Prod.fst).Nodup
      unfold State.passed
      dsimp only
      split
      · exact assign_keys h.keys
      · exact h.keys
    · rcases evidence with ⟨_, last⟩ | stored
      · obtain ⟨m, row, named, own⟩ := h.evidence e last
        refine ⟨m, ?_, named, own⟩
        rw [messages]
        exact List.mem_append_left _ row
      · exact stored

end Recorded

end Autosave

end Cmpath
