import Cmpath.Journal.Provenance

/-!
# Replies and their replays

A committed turn answers a reply whose JSON has the recorded hash. What a reply does is decided by
its fields, not by its JSON: a snapshot that is absent and one that is empty are written alike, and
so are fact keys that differ in stray bytes. The replay stands for the committed reply exactly
outside these cases, and so does the reply a replay returns.
-/

namespace Cmpath
open Lib Lib.Txn

/-! ## A stored reply -/

/-- The update as its own JSON decodes it. -/
def FactUpdate.decoded (f : FactUpdate) : FactUpdate :=
  { f with key := Json.scrubText f.key, value := f.value.canon }

/-- The reference as its own JSON decodes it. -/
def ProvenanceRef.decoded (p : ProvenanceRef) : ProvenanceRef :=
  { p with kind := Json.scrubText p.kind }

/-- A snapshot as `omitempty` writes it and as it is read again: an empty one is absent. -/
def decodedSnapshot (snapshot : Option Json) : Option Json :=
  match snapshot.map object with
  | some (.obj (f :: fields)) => some (.obj (f :: fields))
  | _ => none

/-- The reply as its own JSON decodes it. -/
def Reply.decoded (r : Reply) : Reply :=
  { text := Json.scrubText r.text
    snapshot := decodedSnapshot r.snapshot
    facts := r.facts.map FactUpdate.decoded
    provenance := r.provenance.map ProvenanceRef.decoded }

theorem FactUpdate.ofJson_encode (f : FactUpdate) :
    FactUpdate.ofJson (encode f.toJson) = f.decoded := by
  show FactUpdate.mk (Json.scrubText f.key) f.value.canon.scrub f.evidenceId f.retracted = _
  rw [Json.scrub_canon]
  rfl

theorem ProvenanceRef.ofJson_encode (p : ProvenanceRef) :
    ProvenanceRef.ofJson (encode p.toJson) = p.decoded := rfl

theorem scrubItems_map {α : Type} (f : α → Json) : ∀ xs : List α,
    Json.scrubItems (xs.map f) = xs.map fun x => encode (f x)
  | [] => rfl
  | x :: rest => congrArg (encode (f x) :: ·) (scrubItems_map f rest)

theorem Reply.ofJson_fields (text : Text) (snapshot : Option Json) (facts provenance : List Json) :
    Reply.ofJson (encode (.obj ([(Text.lit "text", .str text)] ++
        snapshot.toList.map (fun s => (Text.lit "snapshot", s)) ++
        omitEmptyList (Text.lit "facts") facts ++
        omitEmptyList (Text.lit "provenance") provenance))) =
      { text := Json.scrubText text, snapshot := snapshot.map encode
        facts := (Json.scrubItems facts).map FactUpdate.ofJson
        provenance := (Json.scrubItems provenance).map ProvenanceRef.ofJson } := by
  cases snapshot <;> cases facts <;> cases provenance <;> rfl

theorem decodedSnapshot_encode (snapshot : Option Json) :
    (decodedSnapshot snapshot).map encode = decodedSnapshot snapshot := by
  unfold decodedSnapshot
  split
  · rename_i f fields same
    obtain ⟨s, _, written⟩ := Option.map_eq_some_iff.mp same
    rw [← written, Option.map_some, encode_object]
  · rfl

theorem Reply.toJson_eq (r : Reply) : r.toJson = .obj ([(Text.lit "text", .str r.text)] ++
    (decodedSnapshot r.snapshot).toList.map (fun s => (Text.lit "snapshot", s)) ++
    omitEmptyList (Text.lit "facts") (r.facts.map FactUpdate.toJson) ++
    omitEmptyList (Text.lit "provenance") (r.provenance.map ProvenanceRef.toJson)) := by
  unfold Reply.toJson decodedSnapshot
  congr 4
  generalize r.snapshot.map object = read
  cases read with
  | none => rfl
  | some j =>
    cases j with
    | obj fields => cases fields <;> rfl
    | _ => rfl

/-- A stored reply reads back, whichever of its optional fields are there. -/
theorem Reply.ofJson_encode (r : Reply) : Reply.ofJson (encode r.toJson) = r.decoded := by
  have facts : (Json.scrubItems (r.facts.map FactUpdate.toJson)).map FactUpdate.ofJson =
      r.facts.map FactUpdate.decoded := by
    rw [scrubItems_map, List.map_map]
    exact List.map_congr_left fun f _ => f.ofJson_encode
  have provenance : (Json.scrubItems (r.provenance.map ProvenanceRef.toJson)).map
      ProvenanceRef.ofJson = r.provenance.map ProvenanceRef.decoded := by
    rw [scrubItems_map, List.map_map]
    exact List.map_congr_left fun p _ => p.ofJson_encode
  rw [Reply.toJson_eq, Reply.ofJson_fields, facts, provenance, decodedSnapshot_encode]
  rfl

theorem scrubText_scrubText (t : Text) : Json.scrubText (Json.scrubText t) = Json.scrubText t :=
  Json.scrubText_of_valid (Json.valid_scrubText t)

theorem object_object (j : Json) : object (object j) = object j := by
  cases j with
  | obj fields =>
    show Json.obj (Json.canonFields (Json.canonFields fields)) = _
    rw [Json.canonFields_of_canonical (Json.canonicalFields_canon fields)]
    rfl
  | _ => rfl

/-- An absent snapshot, an empty one, or one with fields. -/
theorem decodedSnapshot_cases (snapshot : Option Json) :
    (snapshot = none ∧ decodedSnapshot snapshot = none) ∨
    (∃ s, snapshot = some s ∧ object s = .obj [] ∧ decodedSnapshot snapshot = none) ∨
      ∃ s, snapshot = some s ∧ object s ≠ .obj [] ∧ decodedSnapshot snapshot = some (object s) := by
  cases snapshot with
  | none => exact .inl ⟨rfl, rfl⟩
  | some s =>
    have shape : ∃ fields, object s = .obj fields := by
      unfold object
      split <;> exact ⟨_, rfl⟩
    obtain ⟨fields, same⟩ := shape
    right
    unfold decodedSnapshot
    rw [Option.map_some, same]
    cases fields with
    | nil => exact .inl ⟨s, rfl, same, rfl⟩
    | cons f rest => exact .inr ⟨s, rfl, by rw [same]; simp, by rw [same]⟩

theorem decodedSnapshot_decoded (snapshot : Option Json) :
    decodedSnapshot (decodedSnapshot snapshot) = decodedSnapshot snapshot := by
  rcases decodedSnapshot_cases snapshot with ⟨_, same⟩ | ⟨s, _, _, same⟩ | ⟨s, _, filled, same⟩
  · rw [same]
    rfl
  · rw [same]
    rfl
  · rw [same]
    rcases decodedSnapshot_cases (some (object s)) with ⟨absent, _⟩ | ⟨t, given, empty, _⟩ |
      ⟨t, given, _, again⟩
    · cases absent
    · cases given
      exact absurd ((object_object s).symm.trans empty) filled
    · cases given
      rw [again, object_object]

/-- Reading back changes a reply once. -/
theorem Reply.decoded_decoded (r : Reply) : r.decoded.decoded = r.decoded := by
  have facts : r.facts.map (FactUpdate.decoded ∘ FactUpdate.decoded) =
      r.facts.map FactUpdate.decoded := by
    refine List.map_congr_left fun f _ => ?_
    show FactUpdate.mk _ _ _ _ = FactUpdate.mk _ _ _ _
    rw [show f.decoded.key = Json.scrubText f.key from rfl, scrubText_scrubText,
      show f.decoded.value = f.value.canon from rfl, Json.canon_canon]
    rfl
  have provenance : r.provenance.map (ProvenanceRef.decoded ∘ ProvenanceRef.decoded) =
      r.provenance.map ProvenanceRef.decoded := by
    refine List.map_congr_left fun p _ => ?_
    show ProvenanceRef.mk _ _ = ProvenanceRef.mk _ _
    rw [show p.decoded.kind = Json.scrubText p.kind from rfl, scrubText_scrubText]
    rfl
  show Reply.mk _ _ _ _ = Reply.mk _ _ _ _
  rw [show r.decoded.text = Json.scrubText r.text from rfl, scrubText_scrubText,
    show r.decoded.snapshot = decodedSnapshot r.snapshot from rfl, decodedSnapshot_decoded,
    show r.decoded.facts = r.facts.map FactUpdate.decoded from rfl, List.map_map, facts,
    show r.decoded.provenance = r.provenance.map ProvenanceRef.decoded from rfl, List.map_map,
    provenance]

/-! ## Equal hashes -/

/-- The numbers in a reply are JSON numbers. -/
structure Reply.Numbered (r : Reply) : Prop where
  snapshot : ∀ s, r.snapshot = some s → s.Numbers
  facts : ∀ f ∈ r.facts, f.value.Numbers

theorem numbers_object {j : Json} (h : j.Numbers) : (object j).Numbers := by
  unfold object
  split
  · exact Json.numbersFields_iff.mpr (Json.numbersFields_canon h)
  · trivial

theorem Reply.Numbered.toJson {r : Reply} (h : r.Numbered) : r.toJson.Numbers := by
  have list : ∀ {key : Text} {items : List Json}, (∀ j ∈ items, j.Numbers) →
      ∀ f ∈ omitEmptyList key items, f.2.Numbers := by
    intro key items each f member
    unfold omitEmptyList at member
    split at member
    · exact absurd member List.not_mem_nil
    · rw [List.mem_singleton.mp member]
      exact Json.numbersItems_iff.mpr each
  rw [Reply.toJson_eq]
  refine Json.numbersFields_iff.mpr fun f member => ?_
  simp only [List.mem_append, List.mem_map, Option.mem_toList] at member
  rcases member with ((member | ⟨s, given, rfl⟩) | member) | member
  · rw [List.mem_singleton.mp member]
    trivial
  · rcases decodedSnapshot_cases r.snapshot with ⟨_, none_⟩ | ⟨_, _, _, none_⟩ | ⟨s', same, _, some_⟩
    · rw [none_] at given
      cases given
    · rw [none_] at given
      cases given
    · rw [some_] at given
      cases given
      exact numbers_object (h.snapshot s' same)
  · refine list (fun j written => ?_) f member
    obtain ⟨fact, source, rfl⟩ := List.mem_map.mp written
    exact ⟨trivial, Json.numbers_canon (h.facts fact source), trivial, trivial, trivial⟩
  · refine list (fun j written => ?_) f member
    obtain ⟨p, _, rfl⟩ := List.mem_map.mp written
    exact ⟨trivial, trivial, trivial⟩

/-- Replies with one text read back alike. -/
theorem Reply.decoded_eq {r s : Reply} (hr : r.Numbered) (hs : s.Numbered)
    (same : r.toJson.marshal = s.toJson.marshal) : r.decoded = s.decoded := by
  rw [← r.ofJson_encode, ← s.ofJson_encode]
  exact congrArg Reply.ofJson (Json.scrub_eq_of_marshal hr.toJson hs.toJson same)

/-! ## Equal effects -/

theorem map_pair_eq {α β γ : Type} {f : α → β} {g : α → γ} : ∀ {xs ys : List α},
    xs.map f = ys.map f → xs.map g = ys.map g →
      xs.map (fun x => (f x, g x)) = ys.map fun x => (f x, g x)
  | [], [], _, _ => rfl
  | [], _ :: _, first, _ => nomatch first
  | _ :: _, [], first, _ => nomatch first
  | x :: xs, y :: ys, first, second => by
      obtain ⟨headF, restF⟩ := List.cons.inj first
      obtain ⟨headG, restG⟩ := List.cons.inj second
      rw [List.map_cons, List.map_cons, headF, headG, map_pair_eq restF restG]

/-- A text without replacement characters is no other text's replacement. -/
theorem eq_of_scrubText {t clean : Text} (h : ∀ r ∈ clean, r ≠ .char '\uFFFD')
    (same : Json.scrubText t = clean) : t = clean := by
  induction t generalizing clean with
  | nil => exact same
  | cons r rest ih =>
    cases clean with
    | nil => cases same
    | cons c cs =>
      obtain ⟨head, tail⟩ := List.cons.inj same
      have later := ih (fun x member => h x (List.mem_cons_of_mem _ member)) tail
      cases r with
      | char x => rw [← head, later]
      | stray x => exact absurd head.symm (h c List.mem_cons_self)

/-- Supporting references that read back alike are the same. -/
theorem provenance_eq {refs others : List ProvenanceRef}
    (supports : ∀ ref ∈ refs, ref.kind = EdgeKind.supports.text)
    (same : refs.map ProvenanceRef.decoded = others.map ProvenanceRef.decoded) : others = refs := by
  induction refs generalizing others with
  | nil => exact List.map_eq_nil_iff.mp same.symm
  | cons ref rest ih =>
    cases others with
    | nil => cases same
    | cons other later =>
      obtain ⟨head, tail⟩ := List.cons.inj same
      have kind := supports ref List.mem_cons_self
      have evidence : ref.evidenceId = other.evidenceId := congrArg (·.evidenceId) head
      have scrubbed : Json.scrubText other.kind = EdgeKind.supports.text := by
        rw [← show Json.scrubText ref.kind = Json.scrubText other.kind from
          congrArg ProvenanceRef.kind head, kind]
        rfl
      have clean : ∀ r ∈ EdgeKind.supports.text, r ≠ Rune.char '\uFFFD' := by decide
      have otherKind := eq_of_scrubText clean scrubbed
      rw [ih (fun r member => supports r (List.mem_cons_of_mem _ member)) tail]
      obtain ⟨e, k⟩ := ref
      obtain ⟨e', k'⟩ := other
      cases evidence
      cases kind
      cases otherKind
      rfl

/-- What a fact update writes is its key and what is read back of it. -/
theorem FactUpdate.columns_eq (f : FactUpdate) :
    f.columns = (f.key, f.decoded.value, f.decoded.evidenceId, f.decoded.retracted) := by
  unfold FactUpdate.columns
  rw [show encode f.value.canon = f.value.canon from Json.scrub_canon f.value]
  rfl

theorem columns_iff {r s : Reply} (same : r.decoded = s.decoded) :
    r.facts.map FactUpdate.columns = s.facts.map FactUpdate.columns ↔
      r.facts.map (·.key) = s.facts.map (·.key) := by
  constructor
  · intro columns
    have keys := congrArg (List.map Prod.fst) columns
    rwa [List.map_map, List.map_map] at keys
  · intro keys
    have pairs := map_pair_eq keys (congrArg Reply.facts same)
    have images := congrArg (List.map fun p : Text × FactUpdate =>
      (p.1, p.2.value, p.2.evidenceId, p.2.retracted)) pairs
    rw [List.map_map, List.map_map] at images
    rw [List.map_congr_left fun f _ => f.columns_eq]
    exact images.trans (List.map_congr_left fun f _ => f.columns_eq).symm

/-- Snapshots that read back alike: both absent, both the same object, or one absent and one
    empty. -/
theorem snapshots_cases {a b : Option Json} (same : decodedSnapshot a = decodedSnapshot b) :
    (a = none ∧ b = none) ∨ (∃ x y, a = some x ∧ b = some y ∧ object x = object y) ∨
      (a = none ∧ ∃ y, b = some y ∧ object y = .obj []) ∨
      ∃ x, a = some x ∧ object x = .obj [] ∧ b = none := by
  rcases decodedSnapshot_cases a with ⟨absent, da⟩ | ⟨x, given, empty, da⟩ | ⟨x, given, filled, da⟩
  · rcases decodedSnapshot_cases b with ⟨absent', _⟩ | ⟨y, given', empty', _⟩ | ⟨y, _, _, db⟩
    · exact .inl ⟨absent, absent'⟩
    · exact .inr (.inr (.inl ⟨absent, y, given', empty'⟩))
    · rw [da, db] at same
      cases same
  · rcases decodedSnapshot_cases b with ⟨absent', _⟩ | ⟨y, given', empty', _⟩ | ⟨y, _, _, db⟩
    · exact .inr (.inr (.inr ⟨x, given, empty, absent'⟩))
    · exact .inr (.inl ⟨x, y, given, given', empty.trans empty'.symm⟩)
    · rw [da, db] at same
      cases same
  · rcases decodedSnapshot_cases b with ⟨_, db⟩ | ⟨_, _, _, db⟩ | ⟨y, given', _, db⟩
    · rw [da, db] at same
      cases same
    · rw [da, db] at same
      cases same
    · rw [da, db] at same
      exact .inr (.inl ⟨x, y, given, given', Option.some.inj same⟩)

/-- Replies that read back alike publish one snapshot exactly when both carry one or none does, or
    the task's is empty anyway. -/
theorem published_iff {r s : Reply} (same : r.decoded = s.decoded) (row : TaskRow) :
    r.published row = s.published row ↔
      (r.snapshot.isSome = s.snapshot.isSome ∨ object row.snapshot = .obj []) := by
  have kept : encode (object (object row.snapshot)) = object row.snapshot := by
    rw [encode_object, object_object]
  unfold Reply.published
  rcases snapshots_cases (congrArg Reply.snapshot same) with ⟨a, b⟩ | ⟨x, y, a, b, agree⟩ |
    ⟨a, y, b, empty⟩ | ⟨x, a, empty, b⟩
  · rw [a, b]
    simp
  · rw [a, b]
    simp [agree]
  · rw [a, b, Option.getD_none, Option.getD_some, kept, encode_object, empty]
    simp
  · rw [a, b, Option.getD_none, Option.getD_some, kept, encode_object, empty, eq_comm]
    simp

/-- And then they replace the packed snapshot of a fresh turn, or neither does. -/
theorem snapshotChanged_eq {r s : Reply} (same : r.decoded = s.decoded) {p : Package} {row : TaskRow}
    (packed : p.snapshot = object row.snapshot)
    (alike : r.snapshot.isSome = s.snapshot.isSome ∨ object row.snapshot = .obj []) :
    snapshotChanged p r = snapshotChanged p s := by
  unfold snapshotChanged
  rcases snapshots_cases (congrArg Reply.snapshot same) with ⟨a, b⟩ | ⟨x, y, a, b, agree⟩ |
    ⟨a, y, b, empty⟩ | ⟨x, a, empty, b⟩
  · rw [a, b]
  · rw [a, b]
    dsimp only
    rw [agree]
  · rw [a, b] at alike ⊢
    rcases alike with differ | blank
    · cases differ
    · simp [packed, blank, empty]
  · rw [a, b] at alike ⊢
    rcases alike with differ | blank
    · cases differ
    · simp [packed, blank, empty]

/-! ## The same writes -/

section Writes

variable {clk : Clock} {id : Text}

theorem setFact_congr {f g : FactUpdate} (same : f.columns = g.columns) (now : Stamp)
    (taskId : Int) : setFact now taskId f = setFact now taskId g := by
  have key : f.key = g.key := congrArg Prod.fst same
  have value : encode f.value.canon = encode g.value.canon := congrArg (·.2.1) same
  have evidence : f.evidenceId = g.evidenceId := congrArg (·.2.2.1) same
  have retracted : f.retracted = g.retracted := congrArg (·.2.2.2) same
  unfold setFact
  rw [key, value, evidence, retracted]

theorem setFacts_congr (taskId : Int) : ∀ {fs gs : List FactUpdate} (n : Nat),
    fs.map FactUpdate.columns = gs.map FactUpdate.columns →
      setFacts clk taskId n fs = setFacts clk taskId n gs
  | [], [], _, _ => rfl
  | [], _ :: _, _, same => nomatch same
  | _ :: _, [], _, same => nomatch same
  | f :: fs, g :: gs, n, same => by
      obtain ⟨head, tail⟩ := List.cons.inj same
      unfold setFacts
      rw [setFact_congr head, setFacts_congr taskId (n + 1) tail]

/-- The writes of a reply are decided by its text, the columns of its facts, the snapshot it
    publishes and its provenance. -/
theorem commitWrites_congr {generation : Int} {r s : Reply} {db : Db} {t : TurnRow} {k : Task}
    (first : commitChecks id generation r db = .ok (t, k))
    (second : commitChecks id generation s db = .ok (t, k)) (text : s.text = r.text)
    (facts : s.facts.map FactUpdate.columns = r.facts.map FactUpdate.columns)
    (published : encode (object (s.snapshot.getD k.snapshot)) =
      encode (object (r.snapshot.getD k.snapshot)))
    (provenance : s.provenance = r.provenance) :
    commitWrites clk id generation s db = commitWrites clk id generation r db := by
  have length : s.facts.length = r.facts.length := by
    have := congrArg List.length facts
    rwa [List.length_map, List.length_map] at this
  have here : ∀ {x : Reply}, commitChecks id generation x db = .ok (t, k) →
      read (commitChecks id generation x) db = .ok ((t, k), db) :=
    fun checks => read_ok.mpr ⟨checks, rfl⟩
  unfold commitWrites
  rw [bind_of_ok (here first), bind_of_ok (here second)]
  dsimp only
  rw [text, setFacts_congr k.id 3 facts, published, provenance, length]

end Writes

/-! ## Replies in the place of others -/

/-- Committing the reply leaves the tasks, facts, provenance and messages of the given database. -/
def Produces (host : Host) (clk : Clock) (id : Text) (generation : Int) (reply : Reply)
    (db target : Db) : Prop :=
  ∃ out db', commit host clk id generation reply db = .ok (out, db') ∧ SameEffect db' target

/-- Both replies carry a snapshot or neither does, or the task's is empty; the fact keys are the
    same. -/
def Reply.Alike (r s : Reply) (row : TaskRow) : Prop :=
  (r.snapshot.isSome = s.snapshot.isSome ∨ object row.snapshot = .obj []) ∧
    r.facts.map (·.key) = s.facts.map (·.key)

section Produces

variable {host : Host} {clk : Clock} {id : Text} {generation : Int} {db db' : Db}

theorem commit_text {reply : Reply} {out : Turn}
    (h : commit host clk id generation reply db = .ok (out, db')) : textOK reply.text = true := by
  unfold commit at h
  split at h
  · cases h
  · rename_i text
    simpa using text

theorem commit_of_pending {reply : Reply} {t : TurnRow} (text : textOK reply.text = true)
    (live : db.turn? id = some t) (pending : t.status = .pending) :
    commit host clk id generation reply db = commitPending host clk id generation reply db := by
  unfold commit
  rw [text, turnRow_ok.mpr live]
  simp [pending]

theorem find?_replace_of_found {rows : List TaskRow} {row new : TaskRow} {k : Int}
    (found : rows.find? (·.id == k) = some row) (id : row.id = k) (same : new.id = row.id) :
    (Table.replace (·.id == row.id) new rows).find? (·.id == row.id) = some new := by
  subst id
  exact Table.find?_replace_self found same

/-- Two replies written in one place with one effect publish one snapshot and the same facts. -/
theorem Applied.agree {t : TurnRow} {row : TaskRow} {r s : Reply} {a b : Db}
    (first : Applied clk id t row r db a) (second : Applied clk id t row s db b)
    (task : db.task? t.taskId = some row) (same : SameEffect b a) :
    r.published row = s.published row ∧
      r.facts.map FactUpdate.columns = s.facts.map FactUpdate.columns := by
  obtain ⟨rows, added, columns⟩ := first.facts
  obtain ⟨rows', added', columns'⟩ := second.facts
  constructor
  · have written : ∀ {x : Reply}, (Table.replace (·.id == row.id)
        (row.withSnapshot (x.published row)) db.tasks).find? (·.id == row.id) =
          some (row.withSnapshot (x.published row)) :=
      find?_replace_of_found task (task?_id task) rfl
    have rows := same.tasks
    rw [first.tasks, second.tasks] at rows
    have found := (@written s).symm.trans ((congrArg (List.find? (·.id == row.id)) rows).trans
      (@written r))
    exact (congrArg TaskRow.snapshot (Option.some.inj found)).symm
  · have rows := same.facts
    rw [added, added'] at rows
    rw [← columns, ← columns', List.append_cancel_left rows]

/-- **Replies that read back alike.** One has the effect of the other exactly when it also agrees on
    whether there is a snapshot, unless the task's is empty, and on the bytes of the fact keys. -/
theorem produces_iff (reachable : Reachable host db) {r s : Reply} {out : Turn} {t : TurnRow}
    {row : TaskRow} (run : commit host clk id generation r db = .ok (out, db'))
    (fresh : out.replayed = false) (live : db.turn? id = some t)
    (task : db.task? t.taskId = some row) (text : s.text = r.text) (same : r.decoded = s.decoded) :
    Produces host clk id generation s db db' ↔ r.Alike s row := by
  obtain ⟨t', k, row', mid, checks, task', applied, effect, _⟩ := (commit_applied run).2 fresh
  obtain ⟨live', pending, current, basis, known, accepted, provenance, revision, settled⟩ :=
    commitChecks_ok_iff.mp checks
  rw [live] at live'
  cases live'
  rw [task] at task'
  cases task'
  have textOk := commit_text run
  rw [commit_of_pending textOk live pending] at run
  obtain ⟨k', mid', writes, record⟩ := commitPending_ok_iff.mp run
  constructor
  · rintro ⟨out', db'', again, produced⟩
    rw [commit_of_pending (text ▸ textOk) live pending] at again
    obtain ⟨k'', mid'', writes', record'⟩ := commitPending_ok_iff.mp again
    obtain ⟨_, _, checks', live', task', _, applied'⟩ := commitWrites_ok writes'
    rw [live] at live'
    cases live'
    rw [task] at task'
    cases task'
    have effects := ((recordCommit_ok record').1.symm.trans produced).trans effect
    obtain ⟨published, columns⟩ := applied.agree applied' task effects
    exact ⟨(published_iff same row).mp published, (columns_iff same).mp columns⟩
  · rintro ⟨snapshots, keys⟩
    have refs : s.provenance = r.provenance := by
      refine provenance_eq (fun ref member => ?_) (congrArg Reply.provenance same)
      obtain ⟨allowed, seen, _, checked⟩ := validateProvenance_checked provenance member
      have kind := @List.find?_some _ (fun k => EdgeKind.text k == ref.kind) _ _
        (checkReference_ok checked).1
      exact (beq_iff_eq.mp kind).symm
    have accepts : t.refuses s = false := by
      unfold TurnRow.refuses at accepted ⊢
      cases bound : (Request.ofJson t.requestJson).scopeBound with
      | false => rfl
      | true =>
        have packed := (reachable.anchored t (turn?_mem live) bound).packed reachable.keys
          (by rw [turn?_id live]; exact basis) task
        rw [bound, snapshotChanged_eq same packed snapshots] at accepted
        rw [refs]
        exact accepted
    have checks' : commitChecks id generation s db = .ok (t, k) :=
      commitChecks_ok_iff.mpr ⟨live, pending, current, basis, known, accepts, refs ▸ provenance,
        revision, settled⟩
    have published : encode (object (s.snapshot.getD k.snapshot)) =
        encode (object (r.snapshot.getD k.snapshot)) := by
      obtain ⟨_, found, _, _, _, snapshot⟩ := task_ok known
      rw [task] at found
      cases found
      rw [snapshot]
      exact ((published_iff same row).mpr snapshots).symm
    have again := @commitWrites_congr clk _ _ _ _ _ _ _ checks checks' text
      ((columns_iff same).mpr keys).symm published refs
    obtain ⟨_, _, _, _, _, turns, _⟩ := commitWrites_ok writes
    have still : mid'.turn? id = some t := by
      unfold Db.turn?
      rw [turns]
      exact live
    obtain ⟨out', db'', record'⟩ := @recordCommit_total host clk _ _ s k' _ still
    refine ⟨out', db'', ?_, (recordCommit_ok record').1.trans (recordCommit_ok record).1.symm⟩
    rw [commit_of_pending (text ▸ textOk) live pending]
    exact commitPending_ok_iff.mpr ⟨k', mid', again.trans writes, record'⟩

end Produces

/-! ## Replays -/

/-- An empty snapshot was published over an empty one, and every fact key is UTF-8: what is read
    back of the reply stands for it. -/
def Reply.Lossless (r : Reply) (row : TaskRow) : Prop :=
  (∀ s, r.snapshot = some s → object s = .obj [] → object row.snapshot = .obj []) ∧
    ∀ f ∈ r.facts, f.key.valid = true

theorem alike_decoded (r : Reply) (row : TaskRow) : r.Alike r.decoded row ↔ r.Lossless row := by
  have keys : r.facts.map (·.key) = r.decoded.facts.map (·.key) ↔
      ∀ f ∈ r.facts, f.key.valid = true := by
    show _ = (r.facts.map FactUpdate.decoded).map _ ↔ _
    rw [List.map_map, List.map_inj_left]
    refine forall₂_congr fun f _ => ?_
    show f.key = Json.scrubText f.key ↔ _
    constructor
    · intro same
      rw [same]
      exact Json.valid_scrubText f.key
    · exact fun valid => (Json.scrubText_of_valid valid).symm
  unfold Reply.Alike Reply.Lossless
  rw [keys]
  refine and_congr_left fun _ => ?_
  show (_ = (decodedSnapshot r.snapshot).isSome ∨ _) ↔ _
  rcases decodedSnapshot_cases r.snapshot with ⟨given, read⟩ | ⟨x, given, empty, read⟩ |
    ⟨x, given, filled, read⟩
  · rw [read, given]
    simp
  · rw [read, given]
    simp [empty]
  · rw [read, given]
    simp [filled]

section Replay

variable {host : Host} {db : Db}

/-- A committed turn stays as it is until it is retired. -/
theorem Step.committed_turn (step : Step) (keys : JournalKeys db.toJournal) {t : TurnRow}
    (live : t ∈ db.turns) (terminal : t.status ≠ .pending) :
    t ∈ (step.next host db).turns ∨
      ∃ r ∈ (step.next host db).retiredTurns, r.requestId = t.requestId := by
  rcases step.change host db with change | evolves
  · rcases change.terminal_step keys live terminal with same | removed
    · left
      have mine : t ∈ (db.toJournal.ofTurn t.requestId).turns :=
        List.mem_filter.mpr ⟨live, beq_self_eq_true _⟩
      rw [← same] at mine
      exact (List.mem_filter.mp mine).1
    · obtain ⟨_, tomb⟩ := removed.tombstone
      exact .inr ⟨_, tomb, rfl⟩
  · left
    rw [congrArg Journal.turns evolves.journal]
    exact live

theorem runSteps_committed {t u : TurnRow} (terminal : t.status ≠ .pending) (steps : List Step)
    (keys : JournalKeys db.toJournal) (live : t ∈ db.turns)
    (found : (runSteps host db steps).turn? t.requestId = some u) : u = t := by
  have kept : t ∈ (runSteps host db steps).turns ∨
      ∃ r ∈ (runSteps host db steps).retiredTurns, r.requestId = t.requestId := by
    have every : ∀ (d : Db) (step : Step), True →
        (JournalKeys d.toJournal ∧ (t ∈ d.turns ∨ ∃ r ∈ d.retiredTurns,
          r.requestId = t.requestId)) →
        JournalKeys (step.next host d).toJournal ∧ (t ∈ (step.next host d).turns ∨
          ∃ r ∈ (step.next host d).retiredTurns, r.requestId = t.requestId) := by
      rintro d step _ ⟨keys, kept⟩
      refine ⟨step.keys keys, ?_⟩
      rcases kept with live | ⟨r, tomb, same⟩
      · exact step.committed_turn keys live terminal
      · exact .inr ⟨r, step.retired keys tomb, same⟩
    exact (runSteps_inv every (fun _ _ => trivial) ⟨keys, .inl live⟩).2
  have keys' := @runSteps_keys host steps db keys
  rcases kept with live | ⟨r, tomb, same⟩
  · exact keys'.turn_eq (turn?_mem found) live (turn?_id found)
  · exact absurd (same.trans (turn?_id found).symm) (keys'.apart u (turn?_mem found) r tomb)

/-- What a commit leaves of its turn. -/
theorem commit_recorded {clk : Clock} {id : Text} {generation : Int} {reply : Reply} {out : Turn}
    {db' : Db} (run : commit host clk id generation reply db = .ok (out, db'))
    (fresh : out.replayed = false) : ∃ u, db'.turn? id = some u ∧ u.status = .committed ∧
      u.replyJson = some (encode reply.toJson) ∧
      u.commitHash = some (fingerprint host reply.toJson) := by
  obtain ⟨t, _, _, _, checks, _⟩ := (commit_applied run).2 fresh
  obtain ⟨live, pending, _⟩ := commitChecks_ok_iff.mp checks
  rw [commit_of_pending (commit_text run) live pending] at run
  obtain ⟨_, _, _, record⟩ := commitPending_ok_iff.mp run
  obtain ⟨_, _, _, _, _, found⟩ := recordCommit_ok record
  exact ⟨_, found, rfl, rfl, rfl⟩

/-- **Replay by effect.** After a commit, whatever runs in between: a reply that the turn answers as
    a replay has the effect of the committed one, in its place, exactly when the two agree on whether
    there is a snapshot (unless the task's was empty) and on the bytes of the fact keys. The reply
    that a replay or an inspection returns has the committed effect exactly when the committed
    reply published no empty snapshot over a full one and its fact keys are UTF-8. -/
theorem replay_exact (reachable : Reachable host db) {clk : Clock} {id : Text} {generation : Int}
    {reply : Reply} {out : Turn} {db' : Db} {t : TurnRow} {row : TaskRow}
    (run : Step.exec host ⟨clk, .engine (.commit id generation reply)⟩ db = (.ok (.turn out), db'))
    (first : out.replayed = false) (live : db.turn? id = some t)
    (task : db.task? t.taskId = some row) (after : List Step) :
    (∀ clk' other answer, reply.Numbered → other.Numbered →
      (host.sha256 reply.toJson.marshal = host.sha256 other.toJson.marshal →
        reply.toJson.marshal = other.toJson.marshal) →
      (Step.exec host ⟨clk', .engine (.commit id generation other)⟩
        (runSteps host db' after)).1 = .ok (.turn answer) → answer.replayed = true →
      (Produces host clk id generation other db db' ↔ reply.Alike other row)) ∧
    ∀ (step : Step) answer, (step.action = .engine (.turn id) ∨
        ∃ generation' other, step.action = .engine (.commit id generation' other)) →
      (step.exec host (runSteps host db' after)).1 = .ok (.turn answer) →
      ∃ told, answer.reply = some told ∧
        (Produces host clk id generation told db db' ↔ reply.Lossless row) := by
  have keys := reachable.keys
  obtain ⟨_, ran, answer⟩ := responding_ok.mp (atomic_ok.mp run)
  cases answer
  obtain ⟨u, found, committed, stored, hash⟩ := commit_recorded ran first
  have keys' : JournalKeys db'.toJournal := by
    have := @Step.keys host ⟨clk, .engine (.commit id generation reply)⟩ db keys
    rw [Step.next, run] at this
    exact this
  have terminal : u.status ≠ .pending := by
    rw [committed]
    decide
  have uid := turn?_id found
  have same : ∀ {v}, (runSteps host db' after).turn? id = some v → v = u := by
    intro v here
    rw [← uid] at here
    exact runSteps_committed terminal after keys' (turn?_mem found) here
  have told : u.turn.reply = some reply.decoded := by
    show u.replyJson.map Reply.ofJson = _
    rw [stored, Option.map_some, Reply.ofJson_encode]
  have text : reply.decoded.text = reply.text :=
    Json.scrubText_of_valid (textOK_valid (commit_text ran))
  constructor
  · intro clk' other answer numbered numbered' distinct ok again
    obtain ⟨_, ran', response⟩ := responding_ok.mp (atomic_ok.mp (Prod.ext ok rfl))
    cases response
    rcases commit_ok ran' with ⟨v, here, _, _, hash', _, _⟩ | ⟨_, _, _, _, _, fresh⟩
    · rw [same here, hash] at hash'
      have digest : host.sha256 reply.toJson.marshal = host.sha256 other.toJson.marshal :=
        Digest.ext (Option.some.inj hash')
      have alike := Reply.decoded_eq numbered numbered' (distinct digest)
      refine produces_iff reachable ran first live task ?_ alike
      have texts : Json.scrubText reply.text = Json.scrubText other.text :=
        congrArg Reply.text alike
      rw [Json.scrubText_of_valid (textOK_valid (commit_text ran)),
        Json.scrubText_of_valid (textOK_valid (commit_text ran'))] at texts
      exact texts.symm
    · exact absurd fresh.pending ((same fresh.live).symm ▸ terminal)
  · intro step answer kind ok
    refine ⟨reply.decoded, ?_, ?_⟩
    · have ran' : step.action.run host step.clk (runSteps host db' after) =
          .ok (.turn answer, (step.exec host (runSteps host db' after)).2) :=
        atomic_ok.mp (Prod.ext ok rfl)
      rcases kind with action | ⟨generation', other, action⟩
      · rw [action] at ran'
        obtain ⟨_, shown, response⟩ := responding_ok.mp ran'
        cases response
        obtain ⟨v, here, rfl⟩ := turn_ok.mp (read_ok.mp shown).1
        rw [same here]
        exact told
      · rw [action] at ran'
        obtain ⟨_, replayed, response⟩ := responding_ok.mp ran'
        cases response
        rcases commit_ok replayed with ⟨v, here, _, _, _, rfl, _⟩ | ⟨_, _, _, _, _, fresh⟩
        · rw [same here]
          exact told
        · exact absurd fresh.pending ((same fresh.live).symm ▸ terminal)
    · rw [produces_iff reachable ran first live task text (Reply.decoded_decoded reply).symm]
      exact alike_decoded reply row

end Replay

/-! ## Replays in the small store -/

/-- A task with a snapshot, and a pending turn of it. -/
def filledTurn : List Step :=
  [plainStep (.createTask
      { title := Text.lit "t", snapshot := some (.obj [(Text.lit "a", .int 1)]) }),
    plainStep (.begin plainRequest [plainCounter])]

def filledDb : Db := runSteps plainHost .empty filledTurn

def plainCommit (reply : Reply) : Step := plainStep (.commit (Text.lit "r") 1 reply)

/-- A reply without a snapshot, and the same reply with an empty one. -/
def textReply : Reply := { text := Text.lit "x" }

def emptyReply : Reply := { text := Text.lit "x", snapshot := some (.obj []) }

def repliedDb : Db := (plainCommit textReply).next plainHost filledDb

theorem filledDb_found : (∃ t, filledDb.turn? (Text.lit "r") = some t ∧ t.taskId = 1) ∧
    ∃ row, filledDb.task? 1 = some row := by
  obtain ⟨t, live, own⟩ := (Option.any_eq_true (fun t : TurnRow => t.taskId == 1)
    (filledDb.turn? (Text.lit "r"))).mp (by decide +kernel)
  obtain ⟨row, task, _⟩ := (Option.any_eq_true (fun _ : TaskRow => true)
    (filledDb.task? 1)).mp (by decide +kernel)
  exact ⟨⟨t, live, beq_iff_eq.mp own⟩, row, task⟩

theorem filledDb_commit : ∃ out, (Step.exec plainHost (plainCommit textReply) filledDb).1 =
    .ok (.turn out) ∧ out.replayed = false := by
  obtain ⟨out, run, fresh⟩ := exists_turn (p := fun t => !t.replayed)
    (x := (Step.exec plainHost (plainCommit textReply) filledDb).1) (by decide +kernel)
  exact ⟨out, run, by simpa using fresh⟩

/-- The committed reply, replayed. -/
theorem replay_exact_same :
    Produces plainHost plainClock (Text.lit "r") 1 textReply filledDb repliedDb := by
  obtain ⟨⟨t, live, own⟩, row, task⟩ := filledDb_found
  obtain ⟨out, run, fresh⟩ := filledDb_commit
  obtain ⟨answer, again, replayed⟩ := exists_turn (p := Turn.replayed)
    (x := (Step.exec plainHost (plainCommit textReply) repliedDb).1) (by decide +kernel)
  have numbered : textReply.Numbered := ⟨nofun, nofun⟩
  exact ((replay_exact ⟨filledTurn, rfl⟩ (Prod.ext run rfl) fresh live (own ▸ task) []).1
    plainClock textReply answer numbered numbered (fun _ => rfl) again replayed).mpr
      ⟨.inl rfl, rfl⟩

/-- The snapshots of the tasks after a commit. -/
def committedSnapshots (result : Except Failure (Turn × Db)) : List Text :=
  match result with
  | .ok (_, db) => db.tasks.map (·.snapshot.marshal)
  | .error _ => []

/-- An empty snapshot is replayed in the place of no snapshot, and in its place would have erased
    the task's. -/
theorem replay_empty_snapshot :
    textReply.toJson.marshal = emptyReply.toJson.marshal ∧
    (∃ out, (Step.exec plainHost (plainCommit textReply) filledDb).1 = .ok (.turn out) ∧
      out.replayed = false) ∧
    (∃ answer, (Step.exec plainHost (plainCommit emptyReply) repliedDb).1 = .ok (.turn answer) ∧
      answer.replayed = true) ∧
    ¬ Produces plainHost plainClock (Text.lit "r") 1 emptyReply filledDb repliedDb := by
  refine ⟨by decide, filledDb_commit, exists_turn (by decide +kernel), ?_⟩
  rintro ⟨out, db', run, same⟩
  have differ : committedSnapshots
      (commit plainHost plainClock (Text.lit "r") 1 emptyReply filledDb) ≠
        repliedDb.tasks.map (·.snapshot.marshal) := by decide +kernel
  rw [run] at differ
  exact differ (congrArg (List.map fun r : TaskRow => r.snapshot.marshal) same.tasks)

end Cmpath
