import Cmpath.Retention.Rows

/-!
# What a plan hash binds

The hash is taken over one line for each row. The lines give back the list of candidates and, row
by row, everything the journal holds of them; so two databases with one plan hash agree on all that
applying the plan deletes.
-/

namespace Cmpath
open Lib Lib.Txn

/-! ## Reading the lines -/

/-- The table a tagged row is of. -/
def lineTag : Json → Text
  | .arr (.str tag :: _) => tag
  | _ => []

/-- The first line of the corpus. -/
def isCorpusHeader (line : Json) : Bool := lineTag line == Text.lit "cmpath-retention-corpus-v1"

/-- The request identifier of a tagged row. -/
def lineId : Json → Text
  | .arr [_, row] => ((row.get? (Text.lit "request_id")).getD .null).text
  | _ => []

theorem lineTag_taggedRow (tag : Text) (row : Row) : lineTag (taggedRow tag row) = tag := rfl

theorem taggedRow_injective (tag : Text) : Function.Injective (taggedRow tag) := by
  intro a b same
  have items := Json.arr.inj same
  exact Row.json_injective (List.cons.inj (List.cons.inj items).2).1

/-- Every row names its turn. -/
theorem lineId_taggedRows {db : Db} {id : Text} {table : JournalTable} {line : Json}
    (member : line ∈ taggedRows db id table) : lineId line = id := by
  obtain ⟨row, source, rfl⟩ := List.mem_map.mp member
  cases table <;>
  · obtain ⟨r, found, rfl⟩ := List.mem_map.mp source
    have own := beq_iff_eq.mp (List.mem_filter.mp found).2
    rw [← own]
    rfl

theorem lineTag_taggedRows {db : Db} {id : Text} {table : JournalTable} {line : Json}
    (member : line ∈ taggedRows db id table) : lineTag line = table.name := by
  obtain ⟨row, _, rfl⟩ := List.mem_map.mp member
  rfl

/-- A list reads back around its first element of a kind. -/
theorem split_first {α : Type} {p : α → Bool} : ∀ {xs xs' ys ys' : List α} {h h' : α},
    (∀ x ∈ xs, p x = false) → (∀ x ∈ xs', p x = false) → p h = true → p h' = true →
    xs ++ h :: ys = xs' ++ h' :: ys' → xs = xs' ∧ h = h' ∧ ys = ys'
  | [], [], _, _, _, _, _, _, _, _, same => ⟨rfl, List.cons.inj same⟩
  | [], x :: xs', _, _, h, _, _, none_, hit, _, same => by
      have : p x = false := none_ x List.mem_cons_self
      rw [← (List.cons.inj same).1, hit] at this
      cases this
  | x :: xs, [], _, _, _, _, none_, _, _, hit, same => by
      have : p x = false := none_ x List.mem_cons_self
      rw [(List.cons.inj same).1, hit] at this
      cases this
  | x :: xs, x' :: xs', _, _, _, _, hx, hx', hit, hit', same => by
      obtain ⟨rfl, rest⟩ := List.cons.inj same
      obtain ⟨rfl, later⟩ := split_first (fun y member => hx y (List.mem_cons_of_mem _ member))
        (fun y member => hx' y (List.mem_cons_of_mem _ member)) hit hit' rest
      exact ⟨rfl, later⟩

/-- No table is called like the corpus header. -/
theorem taggedRows_no_header {db : Db} {id : Text} {table : JournalTable} {line : Json}
    (member : line ∈ taggedRows db id table) : isCorpusHeader line = false := by
  unfold isCorpusHeader
  rw [lineTag_taggedRows member]
  cases table <;> decide

theorem candidateLines_no_header {db : Db} {ts : List TurnRow} {line : Json}
    (member : line ∈ ts.flatMap (candidateLines db)) : isCorpusHeader line = false := by
  obtain ⟨t, _, member⟩ := List.mem_flatMap.mp member
  rcases List.mem_cons.mp member with rfl | member
  · rfl
  · obtain ⟨table, _, member⟩ := List.mem_flatMap.mp member
    exact taggedRows_no_header member

/-- The rows of the candidates and their tombstones, as the corpus lists them. -/
def corpusRows (db : Db) (ids : List Text) : List Json :=
  (ids.flatMap fun id => retentionCorpusTables.flatMap (taggedRows db id)) ++
    ids.flatMap (tombstoneLines db)

/-- The list of identifiers as the corpus header writes it. -/
def headerIds (ids : List Text) : Json := if ids.isEmpty then .null else .arr (ids.map .str)

theorem headerIds_injective : Function.Injective headerIds := by
  intro a b same
  unfold headerIds at same
  cases a with
  | nil =>
    cases b with
    | nil => rfl
    | cons => simp at same
  | cons x xs =>
    cases b with
    | nil => simp at same
    | cons y ys =>
      simp only [List.isEmpty_cons, Bool.false_eq_true, if_false] at same
      exact List.map_injective_iff.mpr (fun _ _ => Json.str.inj) (Json.arr.inj same)

/-! ## Splitting the corpus by turn and table -/

theorem lineId_tombstoneLines {db : Db} {id : Text} {line : Json}
    (member : line ∈ tombstoneLines db id) : lineId line = id := by
  obtain ⟨r, found, rfl⟩ := List.mem_map.mp member
  have own := beq_iff_eq.mp (List.mem_filter.mp found).2
  rw [← own]
  rfl

theorem mem_corpusTables (table : JournalTable) : table ∈ retentionCorpusTables := by
  cases table <;> decide

/-- The names of the corpus tables and of the tombstones are distinct. -/
theorem names_nodup : (Text.lit "cmp_retired_turns" :: retentionCorpusTables.map
    JournalTable.name).Nodup := by decide +kernel

theorem lineTag_tombstoneLines {db : Db} {id : Text} {line : Json}
    (member : line ∈ tombstoneLines db id) : lineTag line = Text.lit "cmp_retired_turns" := by
  obtain ⟨r, _, rfl⟩ := List.mem_map.mp member
  rfl

theorem name_ne_tombstones (table : JournalTable) :
    table.name ≠ Text.lit "cmp_retired_turns" := fun same =>
  (List.nodup_cons.mp names_nodup).1 (same ▸ List.mem_map_of_mem (mem_corpusTables table))

/-- The lines of one turn. -/
theorem corpusRows_of_id {db : Db} {ids : List Text} {id : Text} (nodup : ids.Nodup)
    (member : id ∈ ids) :
    (corpusRows db ids).filter (lineId · == id) =
      retentionCorpusTables.flatMap (taggedRows db id) ++ tombstoneLines db id := by
  have rows : ∀ other, ∀ line ∈ retentionCorpusTables.flatMap (taggedRows db other),
      lineId line = other := by
    intro other line found
    obtain ⟨table, _, found⟩ := List.mem_flatMap.mp found
    exact lineId_taggedRows found
  unfold corpusRows
  rw [List.filter_append, Table.filter_flatMap_of_key rows nodup member,
    Table.filter_flatMap_of_key (fun _ _ => lineId_tombstoneLines) nodup member]

/-- The lines of one table among them. -/
theorem corpusRows_of_table (db : Db) (id : Text) (table : JournalTable) :
    (retentionCorpusTables.flatMap (taggedRows db id) ++ tombstoneLines db id).filter
      (lineTag · == table.name) = taggedRows db id table := by
  have tombs : (tombstoneLines db id).filter (lineTag · == table.name) = [] := by
    rw [List.filter_eq_nil_iff]
    intro line member
    rw [lineTag_tombstoneLines member]
    simpa using Ne.symm (name_ne_tombstones table)
  rw [List.filter_append, tombs, List.append_nil]
  exact Table.filter_flatMap_of_name (fun _ _ => lineTag_taggedRows)
    (List.nodup_cons.mp names_nodup).2 (mem_corpusTables table)

/-- The tombstones among them. -/
theorem corpusRows_of_tombstones (db : Db) (id : Text) :
    (retentionCorpusTables.flatMap (taggedRows db id) ++ tombstoneLines db id).filter
      (lineTag · == Text.lit "cmp_retired_turns") = tombstoneLines db id := by
  have rows : (retentionCorpusTables.flatMap (taggedRows db id)).filter
      (lineTag · == Text.lit "cmp_retired_turns") = [] := by
    rw [List.filter_eq_nil_iff]
    intro line member
    obtain ⟨table, _, member⟩ := List.mem_flatMap.mp member
    rw [lineTag_taggedRows member]
    simpa using name_ne_tombstones table
  rw [List.filter_append, rows, List.nil_append]
  exact List.filter_eq_self.mpr fun line member => beq_iff_eq.mpr (lineTag_tombstoneLines member)

/-! ## The hash -/

/-- The bytes the plan hash of a database is taken over. -/
def planBytes (cutoff : Instant) (db : Db) : Text := Json.lines (retentionLines db cutoff)

/-- Two databases agree on everything a plan describes: the candidates in order and, column by
    column, every row of theirs in the seven journal tables and their tombstones. -/
structure SamePlan (cutoff : Instant) (a b : Db) : Prop where
  candidates : a.candidateIds cutoff = b.candidateIds cutoff
  rows : ∀ id ∈ a.candidateIds cutoff, ∀ table : JournalTable, table.rows a id = table.rows b id
  tombstones : ∀ id ∈ a.candidateIds cutoff,
    (a.retiredTurns.filter (·.requestId == id)).map RetiredRow.row =
      (b.retiredTurns.filter (·.requestId == id)).map RetiredRow.row

theorem taggedRow_plain {tag : Text} {row : Row} (name : tag.valid = true) (sound : row.Sound) :
    Json.Plain (taggedRow tag row) := ⟨Text.blur_of_valid name, sound.plain, trivial⟩

theorem headerIds_plain {ids : List Text} (valid : ∀ id ∈ ids, id.valid = true) :
    Json.Plain (headerIds ids) := by
  unfold headerIds
  split
  · trivial
  · show Json.PlainItems (ids.map .str)
    induction ids with
    | nil => trivial
    | cons id rest ih =>
      refine ⟨Text.blur_of_valid (valid id List.mem_cons_self), ?_⟩
      cases rest with
      | nil => trivial
      | cons next later => exact ih (fun x member => valid x (List.mem_cons_of_mem _ member)) nofun

/-- Every line of a plan reads back. -/
theorem retentionLines_plain {db : Db} (keys : JournalKeys db.toJournal)
    (texts : JournalTexts db.toJournal) (cutoff : Instant) :
    ∀ line ∈ retentionLines db cutoff, Json.Plain line := by
  have tagged : ∀ id table, ∀ line ∈ taggedRows db id table, Json.Plain line := by
    intro id table line member
    obtain ⟨row, source, rfl⟩ := List.mem_map.mp member
    refine taggedRow_plain ?_ (rows_sound keys texts table id row source)
    cases table <;> exact Text.valid_lit _
  have turn : ∀ t ∈ db.candidates cutoff, t.Texts := fun t member =>
    texts.turns t (List.mem_filter.mp member).1
  intro line member
  rcases List.mem_cons.mp member with rfl | member
  · exact ⟨Text.blur_of_valid (Text.valid_lit _), Text.blur_of_valid cutoff.valid_text, trivial⟩
  rcases List.mem_append.mp member with member | member
  · obtain ⟨t, candidate, member⟩ := List.mem_flatMap.mp member
    rcases List.mem_cons.mp member with rfl | member
    · exact (turn t candidate).sound.plain
    · obtain ⟨table, _, member⟩ := List.mem_flatMap.mp member
      exact tagged _ table line member
  rcases List.mem_append.mp member with member | member
  · rcases List.mem_cons.mp member with rfl | member
    · refine ⟨Text.blur_of_valid (Text.valid_lit _), headerIds_plain fun id member => ?_, trivial⟩
      obtain ⟨t, candidate, rfl⟩ := List.mem_map.mp member
      exact (turn t candidate).1
    · obtain ⟨id, _, member⟩ := List.mem_flatMap.mp member
      obtain ⟨table, _, member⟩ := List.mem_flatMap.mp member
      exact tagged id table line member
  · obtain ⟨id, _, member⟩ := List.mem_flatMap.mp member
    obtain ⟨r, found, rfl⟩ := List.mem_map.mp member
    exact taggedRow_plain (Text.valid_lit _) (texts.retired r (List.mem_filter.mp found).1).sound

theorem samePlan_of_lines {a b : Db} {cutoff : Instant} (nodup : (a.candidateIds cutoff).Nodup)
    (same : retentionLines a cutoff = retentionLines b cutoff) : SamePlan cutoff a b := by
  have split : ∀ db, retentionLines db cutoff =
      .arr [.str (Text.lit "cmpath-retention-v1"), .str cutoff.text] ::
        ((db.candidates cutoff).flatMap (candidateLines db) ++
          .arr [.str (Text.lit "cmpath-retention-corpus-v1"), headerIds (db.candidateIds cutoff)] ::
            corpusRows db (db.candidateIds cutoff)) := fun _ => rfl
  rw [split a, split b] at same
  obtain ⟨_, header, corpus⟩ := split_first (fun _ => candidateLines_no_header)
    (fun _ => candidateLines_no_header) (by rfl) (by rfl) (List.cons.inj same).2
  have candidates : a.candidateIds cutoff = b.candidateIds cutoff :=
    headerIds_injective (List.cons.inj (List.cons.inj (Json.arr.inj header)).2).1
  rw [← candidates] at corpus
  have turn : ∀ id ∈ a.candidateIds cutoff,
      retentionCorpusTables.flatMap (taggedRows a id) ++ tombstoneLines a id =
        retentionCorpusTables.flatMap (taggedRows b id) ++ tombstoneLines b id := by
    intro id member
    rw [← corpusRows_of_id nodup member, ← corpusRows_of_id nodup member, corpus]
  refine ⟨candidates, fun id member table => ?_, fun id member => ?_⟩
  · have lines := congrArg (List.filter (lineTag · == table.name)) (turn id member)
    rw [corpusRows_of_table, corpusRows_of_table] at lines
    exact List.map_injective_iff.mpr (taggedRow_injective table.name) lines
  · have lines := congrArg (List.filter (lineTag · == Text.lit "cmp_retired_turns"))
      (turn id member)
    rw [corpusRows_of_tombstones, corpusRows_of_tombstones] at lines
    refine List.map_injective_iff.mpr (taggedRow_injective (Text.lit "cmp_retired_turns")) ?_
    rw [List.map_map, List.map_map]
    exact lines

/-- No collision between two byte streams. -/
def CollisionFree (host : Host) (x y : Text) : Prop := host.sha256 x = host.sha256 y → x = y

theorem samePlan_of_hash {host : Host} {a b : Db} {cutoff : Instant}
    (reachA : Reachable host a) (reachB : Reachable host b)
    (collisionFree : CollisionFree host (planBytes cutoff a) (planBytes cutoff b))
    (same : (retention host cutoff a).1.planHash = (retention host cutoff b).1.planHash) :
    SamePlan cutoff a b := by
  have digest : host.sha256 (planBytes cutoff a) = host.sha256 (planBytes cutoff b) :=
    Digest.ext same
  have lines : retentionLines a cutoff = retentionLines b cutoff :=
    Json.lines_inj (retentionLines_plain reachA.keys reachA.texts cutoff)
      (retentionLines_plain reachB.keys reachB.texts cutoff) (collisionFree digest)
  exact samePlan_of_lines (reachA.keys.candidateIds_nodup cutoff) lines

/-- Applying a plan at `b` left `b'` and deleted exactly the rows a dry run at `a` described. -/
structure DeletesDescribed (cutoff : Instant) (a b b' : Db) : Prop where
  described : SamePlan cutoff a b
  gone : ∀ id ∈ a.candidateIds cutoff, ∀ table : JournalTable, table.rows b' id = []
  kept : ∀ id, id ∉ a.candidateIds cutoff → b'.toJournal.ofTurn id = b.toJournal.ofTurn id

theorem deletesDescribed {host : Host} {clk : Clock} {a b b' : Db} {cutoff : Instant}
    {out : Response} (reachA : Reachable host a) (reachB : Reachable host b)
    (collisionFree : CollisionFree host (planBytes cutoff a) (planBytes cutoff b))
    (h : (Op.applyRetention (some cutoff) (retention host cutoff a).1.planHash).run host clk b =
      .ok (out, b')) : DeletesDescribed cutoff a b b' := by
  obtain ⟨_, run, _⟩ := responding_ok.mp h
  obtain ⟨before, given, hash, _, rfl⟩ := applyRetention_ok run
  cases given
  have same := samePlan_of_hash reachA reachB collisionFree hash.symm
  have exact_ : RetentionExact (clk.now 0) cutoff (retention host cutoff b).1 b _ :=
    retention_exact_of_keys reachB.keys
  refine ⟨same, fun id member table => ?_, fun id other => ?_⟩
  · rw [same.candidates] at member
    obtain ⟨t, candidate, rfl⟩ := List.mem_map.mp member
    obtain ⟨live, passes⟩ := List.mem_filter.mp candidate
    exact exact_.gone t live (candidate_iff.mp passes) table
  · refine exact_.others id fun t live own eligible => other ?_
    rw [same.candidates, ← own]
    exact List.contains_iff_mem.mp ((mem_candidateIds reachB.keys live).mpr eligible)

/-- **The plan hash binds the plan.** Two databases the engine reaches with one plan hash have the
    same candidates with the same rows; and where the hash of a dry run is applied, whatever ran in
    between, exactly the rows the dry run described go. -/
theorem plan_hash_binds (host : Host) (first second : List (Clock × Op)) (cutoff : Instant)
    (collisionFree : CollisionFree host (planBytes cutoff (runOps host .empty first))
      (planBytes cutoff (runOps host .empty second))) :
    ((retention host cutoff (runOps host .empty first)).1.planHash =
        (retention host cutoff (runOps host .empty second)).1.planHash →
      SamePlan cutoff (runOps host .empty first) (runOps host .empty second)) ∧
    ∀ clk out db',
      Step.exec host ⟨clk, .engine (.applyRetention (some cutoff)
          (retention host cutoff (runOps host .empty first)).1.planHash)⟩
        (runOps host .empty second) = (.ok out, db') →
      DeletesDescribed cutoff (runOps host .empty first) (runOps host .empty second) db' := by
  have reachA := (runOps_reachable host first).reachable
  have reachB := (runOps_reachable host second).reachable
  refine ⟨samePlan_of_hash reachA reachB collisionFree, fun clk out db' run => ?_⟩
  exact deletesDescribed reachA reachB collisionFree (atomic_ok.mp run)

/-- An aborted turn, before and after a task was created. -/
theorem plan_hash_binds_aborted :
    SamePlan ⟨2000, 1, 1, 0, 0, 0, 0⟩
      (runOps plainHost .empty (plainCalls ++ [(plainClock, .abort (Text.lit "r") 1)]))
      (runOps plainHost .empty (plainCalls ++ [(plainClock, .abort (Text.lit "r") 1),
        (plainClock, .createTask { title := Text.lit "t" })])) :=
  (plan_hash_binds plainHost _ _ _ (fun _ => by decide +kernel)).1 rfl

end Cmpath
