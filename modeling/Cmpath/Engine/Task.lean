import Cmpath.Store.Evolution

/-!
# Tasks and evidence

The first half of `native/engine/engine.go`: task rows, evidence rows and lexical search. What the
engine takes from the Go library, from SQLite's full-text index and from the clock is a `Host` and
a `Clock`.
-/

namespace Cmpath
open Lib Lib.Txn

/-- A digest as `fmt.Sprintf("%x")` writes it: 64 hexadecimal digits. -/
@[ext] structure Digest where
  text : Text
  length_eq : text.length = 64
  hex : ∀ r ∈ text, r.isHex = true

theorem Digest.size_text (d : Digest) : d.text.size = 64 := by
  rw [Text.size_of_hex d.hex, d.length_eq]

/-- The functions the sources call and do not define. `bm25` is the answer of
    `SELECT rowid,-bm25(evidence_index) … WHERE evidence_index MATCH ? ORDER BY score DESC,rowid DESC`
    on an index that received the given commands; scores are JSON numbers. `floatRepr` is Python's
    `repr(float(s))` of a number's spelling. -/
structure Host where
  sha256 : Text → Digest
  jsonValid : Text → Bool
  jsonObject : Text → Bool
  foldNFKC : Text → Text
  isWord : Rune → Bool
  bm25 : List IndexCommand → Text → List (Int × Json)
  casefoldNFKC : Text → Text
  isAlnum : Rune → Bool
  floatRepr : List Char → List Char

/-- The clock readings of one operation: the n-th `now()`, and `time.Now().UTC().UnixMilli()`. -/
structure Clock where
  now : Nat → Stamp
  millis : Int

/-- `problem(code, message)` as the result of a query. -/
def problem {α : Type} (code : Code) (message : String) : Except Failure α :=
  .error (.problem code message)

/-- `encode` (`engine.go:211`): the tree the text of a struct decodes to. -/
def encode (value : Json) : Json := value.scrub

/-- `fingerprint` (`engine.go:212-218`). -/
def fingerprint (host : Host) (value : Json) : Text := (host.sha256 value.marshal).text

/-- `object` (`engine.go:224-231`): a map, empty for any other value. -/
def object : Json → Json
  | .obj fields => .obj (Json.canonFields fields)
  | _ => .obj []

/-- `textOK` (`engine.go:232`). -/
def textOK (text : Text) : Bool := !text.blank && text.valid

theorem valid_fingerprint (host : Host) (value : Json) : (fingerprint host value).valid = true :=
  Text.valid_of_hex (host.sha256 value.marshal).hex

theorem textOK_valid {t : Text} (h : textOK t = true) : t.valid = true := by
  unfold textOK at h
  exact (Bool.and_eq_true_iff.mp h).2

/-! ## Tasks -/

/-- `Task` (`engine.go:234-242`). -/
structure Task where
  id : Int
  title : Text
  status : TaskStatus
  parents : List Int
  aliases : List Text
  snapshot : Json
  revision : Int

/-- `Task` as `encoding/json` writes it. -/
def Task.toJson (t : Task) : Json :=
  .obj [(Text.lit "id", .int t.id), (Text.lit "title", .str t.title),
    (Text.lit "status", .str t.status.text), (Text.lit "parents", .arr (t.parents.map .int)),
    (Text.lit "aliases", .arr (t.aliases.map .str)), (Text.lit "snapshot", t.snapshot),
    (Text.lit "revision", .int t.revision)]

/-- `SELECT parent FROM dependencies WHERE child=? ORDER BY parent`. -/
def Db.parents (db : Db) (id : Int) : List Int :=
  ((db.dependencies.filter (·.child == id)).map (·.parent)).insertionSort (· ≤ ·)

/-- `SELECT alias FROM aliases WHERE task_id=? ORDER BY alias`. -/
def Db.aliasesOf (db : Db) (id : Int) : List Text :=
  ((db.aliases.filter (·.taskId == id)).map (·.aliasText)).insertionSort (fun a b => Text.le a b)

/-- `task` (`engine.go:250-275`). -/
def task (id : Int) : Query Task := fun db =>
  match db.task? id with
  | none => problem .notFound "task does not exist"
  | some r => .ok ⟨id, r.title, r.status, db.parents id, db.aliasesOf id, object r.snapshot,
      r.revision⟩

/-- `tokens` (`engine.go:390-392`). -/
def tokens (host : Host) (text : Text) : List Text := Text.runs host.isWord (host.foldNFKC text)

/-- `normalize` (`engine.go:393`). -/
def normalize (host : Host) (text : Text) : Text := Text.join (Text.lit " ") (tokens host text)

/-- `CreateTask` (`engine.go:243-248`). -/
structure CreateTask where
  title : Text
  parents : List Int := []
  aliases : List Text := []
  snapshot : Option Json := none

/-- `CreateTask` (`engine.go:280-318`). -/
def createTask (host : Host) (clk : Clock) (input : CreateTask) : Tx Task := do
  ensure (textOK input.title) (.problem .invalid "task title must be nonempty UTF-8")
  let snapshot := encode (object (input.snapshot.getD (.obj [])))
  each input.parents fun id => do
    let _ ← read (task id)
    pure ()
  let id ← insertTask input.title snapshot (clk.now 0)
  each input.parents fun parent => insertDependencyOrIgnore id parent
  each input.aliases fun name => do
    ensure (normalize host name != []) (.problem .invalid "empty alias")
    insertAliasOrIgnore id (normalize host name)
  read (task id)

/-! ## Evidence -/

/-- `Evidence` (`engine.go:320-328`). -/
structure Evidence where
  id : Int
  taskId : Int
  role : Role
  content : Text
  source : Json
  citation : Text
  score : Json

/-- `Evidence` as `encoding/json` writes it. -/
def Evidence.toJson (e : Evidence) : Json :=
  .obj [(Text.lit "id", .int e.id), (Text.lit "task_id", .int e.taskId),
    (Text.lit "role", .str e.role.text), (Text.lit "content", .str e.content),
    (Text.lit "source", e.source), (Text.lit "citation", .str e.citation),
    (Text.lit "score", e.score)]

/-- `fmt.Sprintf("T%d:M%d", task, id)`. -/
def citation (taskId id : Int) : Text :=
  .char 'T' :: Text.ofInt taskId ++ .char ':' :: .char 'M' :: Text.ofInt id

/-- `evidence` (`engine.go:336-340`): a message row with its score, zero where it has none. -/
def evidence (r : MessageRow) (score : Json) : Evidence :=
  ⟨r.id, r.taskId, r.role, r.content, object r.source, citation r.taskId r.id, score⟩

/-- `Append` (`engine.go:329-334`). -/
structure Append where
  taskId : Int
  role : Text
  content : Text
  source : Option Json := none

/-- The roles `append` accepts. -/
def Role.ofText? (t : Text) : Option Role :=
  [Role.user, .assistant, .tool, .document].find? fun r => r.text == t

/-- `append` (`engine.go:341-360`). -/
def append (now : Stamp) (input : Append) : Tx Evidence :=
  match Role.ofText? input.role with
  | none => fail (.problem .invalid "invalid evidence role")
  | some role => do
      ensure (textOK input.content) (.problem .invalid "evidence must be nonempty UTF-8")
      let source := encode (object (input.source.getD (.obj [])))
      let id ← insertMessage input.taskId role input.content source now
      pure (evidence ⟨id, input.taskId, role, input.content, source, now⟩ (.int 0))

/-- The loop of `AppendBatch`; the n-th row takes the n-th clock reading. -/
def appendFrom (clk : Clock) (n : Nat) : List Append → Tx (List Evidence)
  | [] => pure []
  | input :: rest => do
      let v ← append (clk.now n) input
      let out ← appendFrom clk (n + 1) rest
      pure (v :: out)

/-- `AppendBatch` (`engine.go:361-378`). -/
def appendBatch (clk : Clock) (inputs : List Append) : Tx (List Evidence) :=
  appendFrom clk 0 inputs

/-! ## Search -/

/-- `stops` (`engine.go:380-388`). -/
def stops : List Text :=
  ["a", "an", "the", "and", "or", "to", "of", "in", "on", "at", "for", "with", "from", "is", "are",
    "was", "were", "be", "i", "me", "my", "you", "your", "it", "its", "this", "that", "what",
    "which", "who", "how", "when", "where", "why", "do", "does", "did", "can", "could", "would",
    "should", "please"].map Text.lit

/-- A word as an FTS5 string, its quotes doubled. -/
def quoteTerm (w : Text) : Text :=
  .char '"' :: w.flatMap (fun r => if r == .char '"' then [r, r] else [r]) ++ [.char '"']

/-- The words of a list that are no stop words, each once, after those already seen. -/
def termsFrom (seen : List Text) : List Text → List Text
  | [] => []
  | w :: rest =>
      if seen.contains w || stops.contains w then termsFrom seen rest
      else w :: termsFrom (w :: seen) rest

/-- `terms` (`engine.go:394-407`). -/
def terms (host : Host) (query : Text) : List Text :=
  ((termsFrom [] (tokens host query)).take 64).map quoteTerm

/-- `search` (`engine.go:408-443`); `ids` is `none` for the whole store. -/
def search (host : Host) (query : Text) (ids : Option (List Int)) (limit : Int) :
    Query (List Evidence) := fun db =>
  if limit < 1 || limit > 1000 then
    problem .invalid "search limit must be between 1 and 1000"
  else
    let parts := terms host query
    if parts.isEmpty then .ok []
    else
      let hits := host.bm25 db.evidenceIndex (Text.join (Text.lit " OR ") parts)
      let rows := hits.filterMap fun hit => (db.message? hit.1).map fun m => evidence m hit.2
      let inScope := rows.filter fun e =>
        match ids with
        | none => true
        | some ids => ids.contains e.taskId
      .ok (inScope.take limit.toNat)

/-! ## What the operations write -/

theorem append_ok {now : Stamp} {input : Append} {db db' : Db} {out : Evidence}
    (h : append now input db = .ok (out, db')) :
    ∃ role, Role.ofText? input.role = some role ∧ textOK input.content = true ∧
      (db.task? input.taskId).isSome ∧ out.id = db.sequence.messages + 1 ∧
      db' = (Write.insertMessage ⟨db.sequence.messages + 1, input.taskId, role, input.content,
        encode (object (input.source.getD (.obj []))), now⟩).apply db := by
  unfold append at h
  cases known : Role.ofText? input.role with
  | none =>
    rw [known] at h
    exact (fail_ok.mp h).elim
  | some role =>
    rw [known] at h
    simp only [bind_ok, ensure_ok, pure_ok] at h
    obtain ⟨_, _, ⟨ok, rfl⟩, _, _, row, rfl, rfl⟩ := h
    obtain ⟨rfl, exists_, rfl⟩ := insertMessage_ok row
    exact ⟨role, rfl, ok, exists_, rfl, rfl⟩

section Keeps

variable {allowed : Write → Prop}

theorem keeps_append (kind : ∀ r, allowed (.insertMessage r)) (now : Stamp) (input : Append) :
    Keeps (Evolves allowed) (append now input) := by
  intro db out db' h
  obtain ⟨role, _, _, exists_, _, rfl⟩ := append_ok h
  exact .single _ (kind _) ⟨rfl, exists_⟩

end Keeps

theorem keeps_appendBatch {allowed : Write → Prop} (kind : ∀ r, allowed (.insertMessage r))
    (clk : Clock) (inputs : List Append) : Keeps (Evolves allowed) (appendBatch clk inputs) := by
  unfold appendBatch
  generalize 0 = n
  induction inputs generalizing n with
  | nil => exact .pure Evolves.refl_all _
  | cons input rest ih =>
    exact .bind Evolves.trans_all (keeps_append kind _ _) fun _ =>
      .bind Evolves.trans_all (ih (n + 1)) fun _ => .pure Evolves.refl_all _

/-- What a task is made of: its row, its dependencies and its aliases. -/
theorem createTask_rows {allowed : Write → Prop} (task : ∀ r, allowed (.insertTask r))
    (dependency : ∀ r, allowed (.insertDependency r)) (name : ∀ r, allowed (.insertAlias r))
    (host : Host) (clk : Clock) (input : CreateTask) :
    Keeps (Evolves allowed) (createTask host clk input) := by
  have refl := @Evolves.refl_all allowed
  have trans := @Evolves.trans_all allowed
  unfold createTask
  refine .bind trans (.ensure refl _ _) fun _ => ?_
  refine .bind trans (.each refl trans (fun id => ?_) _) fun _ => ?_
  · exact .bind trans (.read refl _) fun _ => .pure refl _
  refine .bind trans (keeps_insertTask task _ _ _) fun id => ?_
  refine .bind trans (.each refl trans (fun parent => ?_) _) fun _ => ?_
  · exact keeps_insertDependencyOrIgnore (dependency _)
  refine .bind trans (.each refl trans (fun alias_ => ?_) _) fun _ => .read refl _
  exact .bind trans (.ensure refl _ _) fun _ => keeps_insertAliasOrIgnore name _ _

/-- A task is made without a message and without a fact. -/
theorem createTask_founds (host : Host) (clk : Clock) (input : CreateTask) :
    Keeps (Evolves Write.Founding) (createTask host clk input) :=
  createTask_rows (fun _ => trivial) (fun _ => trivial) (fun _ => trivial) host clk input

theorem keeps_createTask (host : Host) (clk : Clock) (input : CreateTask) :
    Keeps (Evolves Write.Silent) (createTask host clk input) :=
  .mono (fun _ _ h => h.mono fun _ => Write.Founding.silent) (createTask_founds host clk input)

end Cmpath
