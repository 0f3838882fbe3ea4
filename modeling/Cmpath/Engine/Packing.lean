import Cmpath.Engine.Operation
import Cmpath.Lib.Walk

/-!
# What a packed context is

`pack` admits candidates one by one into an envelope that it counts as a whole each time. The
package it returns shows an envelope that fits, whose facts are current and sourced and whose
evidence comes from the requested scope or the recent messages of the task (`Shows`).
-/

namespace Cmpath
open Lib Lib.Txn

/-! ## Scope -/

/-- The tasks of a scope: the task itself, its ancestors up to three hops away, or every task. -/
def InScope (db : Db) (taskId : Int) (kind : Text) (id : Int) : Prop :=
  kind = Text.lit "all" ∨ (kind = Text.lit "task" ∧ id = taskId) ∨
    (kind = Text.lit "lineage" ∧ Walk.Within db.parents taskId 3 id)

/-- Every dependency names a task as its parent (`REFERENCES tasks(id)`). -/
def Db.Linked (db : Db) : Prop := ∀ d ∈ db.dependencies, (db.task? d.parent).isSome

theorem meetParents_eq (ids next parents : List Int) :
    meetParents ids next parents = Walk.meet ids next parents := by
  induction parents generalizing ids next with
  | nil => rfl
  | cons parent rest ih =>
    unfold meetParents Walk.meet
    by_cases known : parent ∈ ids
    · rw [if_pos (by simpa using known), if_pos known, ih]
    · rw [if_neg (by simpa using known), if_neg known, ih]

theorem task_parents {db : Db} {id : Int} {t : Task} (h : task id db = .ok t) :
    t.id = id ∧ t.parents = db.parents id := by
  unfold task at h
  split at h
  · simp [problem] at h
  · cases h
    exact ⟨rfl, rfl⟩

theorem task_of_row {db : Db} {id : Int} (h : (db.task? id).isSome) : ∃ t, task id db = .ok t := by
  obtain ⟨row, found⟩ := Option.isSome_iff_exists.mp h
  unfold task
  rw [found]
  exact ⟨_, rfl⟩

theorem row_of_task {db : Db} {id : Int} {t : Task} (h : task id db = .ok t) :
    (db.task? id).isSome := by
  unfold task at h
  split at h
  · simp [problem] at h
  · rename_i found
    rw [found]
    rfl

theorem hop_ok {db : Db} {ids next front : List Int} {met : List Int × List Int}
    (h : hop db ids next front = .ok met) : met = Walk.hop db.parents ids next front := by
  induction front generalizing ids next with
  | nil =>
    cases h
    rfl
  | cons id front ih =>
    obtain ⟨t, found, rest⟩ := except_bind_ok.mp h
    rw [(task_parents found).2, meetParents_eq] at rest
    exact ih rest

theorem hops_ok {db : Db} {n : Nat} {ids front out : List Int}
    (h : hops db n ids front = .ok out) : out = Walk.hops db.parents n ids front := by
  induction n generalizing ids front with
  | zero =>
    cases h
    rfl
  | succ n ih =>
    obtain ⟨met, first, rest⟩ := except_bind_ok.mp h
    rw [hop_ok first] at rest
    exact ih rest

/-- The tasks `scope` returns are those of the scope. -/
theorem scope_mem {db : Db} {taskId : Int} {kind : Text} {ids : Option (List Int)}
    (known : kind = Text.lit "task" ∨ kind = Text.lit "lineage" ∨ kind = Text.lit "all")
    (h : scope taskId kind db = .ok ids) (id : Int) :
    ids.all (·.contains id) = true ↔ InScope db taskId kind id := by
  have apart : Text.lit "task" ≠ Text.lit "all" ∧ Text.lit "lineage" ≠ Text.lit "all" ∧
      Text.lit "lineage" ≠ Text.lit "task" := by decide
  unfold scope at h
  unfold InScope
  rcases known with rfl | rfl | rfl
  · rw [if_neg apart.1, if_pos rfl] at h
    cases h
    simp [apart.1, apart.2.2.symm]
  · rw [if_neg apart.2.1, if_neg apart.2.2] at h
    obtain ⟨reached, walk, same⟩ := except_bind_ok.mp h
    cases same
    have here : reached = Walk.walk db.parents 3 taskId := hops_ok walk
    simp [here, apart.2.1, apart.2.2, Walk.mem_walk]
  · rw [if_pos rfl] at h
    cases h
    simp

/-- With all parents there the walk never fails. -/
theorem hop_total {db : Db} (linked : db.Linked) {front : List Int} (ids next : List Int)
    (here : ∀ id ∈ front, (db.task? id).isSome) (old : ∀ id ∈ next, (db.task? id).isSome) :
    ∃ met, hop db ids next front = .ok met ∧ ∀ id ∈ met.2, (db.task? id).isSome := by
  induction front generalizing ids next with
  | nil => exact ⟨_, rfl, old⟩
  | cons id front ih =>
    obtain ⟨t, found⟩ := task_of_row (here id List.mem_cons_self)
    have later : ∀ p ∈ (meetParents ids next t.parents).2, (db.task? p).isSome := by
      intro p member
      rw [meetParents_eq] at member
      rcases Walk.mem_meet.2.mp member with before | ⟨parent, _⟩
      · exact old p before
      · rw [(task_parents found).2, Db.parents, List.mem_insertionSort] at parent
        obtain ⟨d, edge, rfl⟩ := List.mem_map.mp parent
        exact linked d (List.mem_filter.mp edge).1
    obtain ⟨met, run, rest⟩ := ih _ _ (fun p member => here p (List.mem_cons_of_mem _ member)) later
    exact ⟨met, except_bind_ok.mpr ⟨t, found, run⟩, rest⟩

theorem hops_total {db : Db} (linked : db.Linked) (n : Nat) {front : List Int} (ids : List Int)
    (here : ∀ id ∈ front, (db.task? id).isSome) : ∃ out, hops db n ids front = .ok out := by
  induction n generalizing ids front with
  | zero => exact ⟨_, rfl⟩
  | succ n ih =>
    obtain ⟨met, run, later⟩ := hop_total linked ids [] here nofun
    obtain ⟨out, rest⟩ := ih met.1 later
    exact ⟨out, except_bind_ok.mpr ⟨met, run, rest⟩⟩

theorem scope_total {db : Db} (linked : db.Linked) {taskId : Int} (kind : Text)
    (here : (db.task? taskId).isSome) : ∃ ids, scope taskId kind db = .ok ids := by
  unfold scope
  split
  · exact ⟨_, rfl⟩
  split
  · exact ⟨_, rfl⟩
  · have root : ∀ id ∈ [taskId], (db.task? id).isSome := by
      intro id member
      rw [List.mem_singleton.mp member]
      exact here
    obtain ⟨out, run⟩ := hops_total linked 3 [taskId] root
    exact ⟨some out, except_bind_ok.mpr ⟨out, run, rfl⟩⟩

/-- Every write keeps the parents of the dependencies it leaves. -/
theorem Write.linked {w : Write} {db : Db} (legal : w.Legal db) (h : db.Linked) :
    (w.apply db).Linked := by
  have keep : ∀ {next : Db}, (∀ id, (db.task? id).isSome → (next.task? id).isSome) →
      (∀ d ∈ next.dependencies, d ∈ db.dependencies) → next.Linked :=
    fun tasks edges d member => tasks _ (h d (edges d member))
  cases w with
  | insertTask new =>
    refine keep (fun id here => ?_) fun _ member => member
    show ((db.tasks ++ [new]).find? _).isSome
    rw [List.find?_append, Option.isSome_or]
    exact Bool.or_eq_true_iff.mpr (Or.inl here)
  | replaceTask old new =>
    obtain ⟨found, same⟩ := legal
    refine keep (fun id here => ?_) fun _ member => member
    show ((Table.replace (·.id == old.id) new db.tasks).find? (·.id == id)).isSome
    by_cases own : id = old.id
    · subst own
      rw [Table.find?_replace_self found same]
      rfl
    · rw [Table.find?_replace_ne same own]
      exact here
  | deleteTasks p =>
    intro d member
    have old : d ∈ db.dependencies := by simpa [Write.apply, Db.deleteTasks] using member
    have here := h d old
    have apart : ∀ r ∈ db.tasks, (r.id == d.parent) = true → p r = false := by
      intro r row same
      by_contra gone
      exact ((legal r row (by simpa using gone)).1 d old).2 (beq_iff_eq.mp same).symm
    unfold Db.task?
    rw [show (Write.apply (.deleteTasks p) db).tasks = Table.delete p db.tasks by
      simp [Write.apply, Db.deleteTasks], Table.find?_delete apart]
    exact here
  | insertDependency new =>
    intro d member
    rcases List.mem_append.mp member with old | added
    · exact h d old
    · rw [List.mem_singleton.mp added]
      exact legal.2
  | replaceDependency old new =>
    intro d member
    rcases Table.mem_replace member with rfl | kept
    · exact legal.2.2
    · exact h d kept
  | deleteDependencies p =>
    refine keep (fun id here => ?_) fun d member => ?_
    · unfold Db.task?
      rw [show (Write.apply (.deleteDependencies p) db).tasks = db.tasks by
        simp [Write.apply, Db.deleteDependencies]]
      exact here
    · rw [show (Write.apply (.deleteDependencies p) db).dependencies =
        Table.delete p db.dependencies by simp [Write.apply, Db.deleteDependencies]] at member
      exact (Table.mem_delete.mp member).1
  | deleteMessages p | deleteFacts p | deleteAliases p =>
    refine keep (fun id here => ?_) fun d member => ?_
    · simpa [Db.task?, Write.apply, Db.deleteMessages, Db.deleteFacts, Db.deleteAliases] using here
    · simpa [Write.apply, Db.deleteMessages, Db.deleteFacts, Db.deleteAliases] using member
  | _ => exact keep (fun _ here => here) fun _ member => member

/-! ## The counter -/

section Measure

variable {r : Request} {c : Counter} {measure : List Message → Int} {allowance : Int}

/-- The counter answers a nonnegative number that depends on the messages alone. -/
structure Measures (c : Counter) (measure : List Message → Int) : Prop where
  answers : ∀ n ms, c.count n ms = .ok (measure ms)
  nonneg : ∀ ms, 0 ≤ measure ms

/-- The second call answers what the first did. -/
theorem Measures.count (h : Measures c measure) (k : Nat) (ms : List Message) :
    Cmpath.count c k ms = .ok (measure ms) := by
  have sign : ¬ measure ms < 0 := Int.not_lt.mpr (h.nonneg ms)
  simp [Cmpath.count, h.answers, bind, Except.bind, sign]

/-! ## Admission -/

/-- A packing between two candidates, the candidates `seen` behind it: the payload shows the
    envelope and fits, and each item of the envelope is one of the candidates. -/
structure Packed (r : Request) (measure : List Message → Int) (allowance : Int)
    (seen : List (Evidence × Option PackedFact)) (p : Packing) : Prop where
  payload : p.payload = messages r p.env
  used : p.used = measure p.payload
  fits : p.used ≤ allowance
  selected : ∀ id, id ∈ p.selected ↔ id ∈ p.env.evidence.map (·.id)
  distinct : (p.env.evidence.map (·.id)).Nodup
  evidence : ∀ e ∈ p.env.evidence,
    (∃ f ∈ p.env.facts, (e, some f) ∈ seen) ∨ (e, none) ∈ seen
  facts : ∀ f ∈ p.env.facts, ∃ ev, (ev, some f) ∈ seen ∧ ∃ e ∈ p.env.evidence, e.id = ev.id

/-- The next candidate, whatever becomes of it. -/
theorem Packed.pass {seen : List (Evidence × Option PackedFact)} {p : Packing}
    (h : Packed r measure allowance seen p) (next : Evidence × Option PackedFact)
    (omitted : Int) (calls : Nat) :
    Packed r measure allowance (seen ++ [next]) { p with omitted := omitted, calls := calls } := by
  refine ⟨h.payload, h.used, h.fits, h.selected, h.distinct, ?_, ?_⟩
  · intro e member
    rcases h.evidence e member with ⟨f, included, known⟩ | known
    · exact Or.inl ⟨f, included, List.mem_append_left _ known⟩
    · exact Or.inr (List.mem_append_left _ known)
  · intro f member
    obtain ⟨ev, known, source⟩ := h.facts f member
    exact ⟨ev, List.mem_append_left _ known, source⟩

/-- A candidate that fits goes into the envelope, its evidence unless it is there already. -/
theorem Packed.take {seen : List (Evidence × Option PackedFact)} {p next : Packing}
    (h : Packed r measure allowance seen p) {ev : Evidence} {fact : Option PackedFact}
    (payload : next.payload = messages r next.env) (used : next.used = measure next.payload)
    (fits : next.used ≤ allowance) (selected : next.selected = ev.id :: p.selected)
    (facts : next.env.facts = p.env.facts ++ fact.toList)
    (evidence : next.env.evidence =
      if p.selected.contains ev.id then p.env.evidence else p.env.evidence ++ [ev]) :
    Packed r measure allowance (seen ++ [(ev, fact)]) next := by
  have now : (ev, fact) ∈ seen ++ [(ev, fact)] := by simp
  have kept : ∀ e ∈ p.env.evidence, e ∈ next.env.evidence := by
    intro e member
    rw [evidence]
    split
    · exact member
    · exact List.mem_append_left _ member
  have ids : ∀ id, id ∈ next.env.evidence.map (·.id) ↔ id = ev.id ∨ id ∈ p.selected := by
    intro id
    rw [evidence]
    by_cases known : ev.id ∈ p.selected
    · rw [if_pos (by simpa using known), ← h.selected]
      constructor
      · exact Or.inr
      · rintro (rfl | old)
        · exact known
        · exact old
    · rw [if_neg (by simpa using known), List.map_append, List.mem_append, ← h.selected]
      simp [or_comm]
  refine ⟨payload, used, fits, ?_, ?_, ?_, ?_⟩
  · intro id
    rw [selected, List.mem_cons, ids]
  · rw [evidence]
    by_cases known : ev.id ∈ p.selected
    · rw [if_pos (by simpa using known)]
      exact h.distinct
    · rw [if_neg (by simpa using known), List.map_append, List.nodup_append]
      refine ⟨h.distinct, List.nodup_singleton _, ?_⟩
      intro a old b new
      rw [List.mem_singleton.mp new]
      rintro rfl
      exact known ((h.selected _).mpr old)
  · intro e member
    have origin : e ∈ p.env.evidence ∨ e = ev := by
      rw [evidence] at member
      split at member
      · exact Or.inl member
      · simpa using member
    rcases origin with old | rfl
    · rcases h.evidence e old with ⟨f, included, known⟩ | known
      · exact Or.inl ⟨f, by rw [facts]; exact List.mem_append_left _ included,
          List.mem_append_left _ known⟩
      · exact Or.inr (List.mem_append_left _ known)
    · cases fact with
      | none => exact Or.inr now
      | some f => exact Or.inl ⟨f, by simp [facts], now⟩
  · intro f member
    rw [facts] at member
    rcases List.mem_append.mp member with old | new
    · obtain ⟨source, candidate, e, there, id⟩ := h.facts f old
      exact ⟨source, List.mem_append_left _ candidate, e, kept e there, id⟩
    · obtain ⟨e, there, id⟩ := List.mem_map.mp ((ids ev.id).mpr (Or.inl rfl))
      rw [Option.mem_toList.mp new] at now ⊢
      exact ⟨ev, now, e, there, id⟩

/-- Admission never fails, and it keeps the packing sound. -/
theorem admitAtom_packed (answers : Measures c measure)
    {seen : List (Evidence × Option PackedFact)} {p : Packing}
    (h : Packed r measure allowance seen p) (ev : Evidence) (fact : Option PackedFact) :
    ∃ next, admitAtom r c allowance p ev fact = .ok next ∧
      Packed r measure allowance (seen ++ [(ev, fact)]) next ∧ next.env.task = p.env.task := by
  unfold admitAtom
  split
  · exact ⟨p, rfl, h.pass (ev, fact) p.omitted p.calls, rfl⟩
  · simp only [answers.count, bind, Except.bind]
    generalize grown : (if p.selected.contains ev.id = true then p.env.evidence
      else p.env.evidence ++ [ev]) = evidence
    split
    · rename_i fits
      exact ⟨_, rfl, h.take rfl rfl fits rfl rfl grown.symm, rfl⟩
    · exact ⟨_, rfl, h.pass (ev, fact) _ _, rfl⟩

theorem admitAll_packed (answers : Measures c measure)
    {seen : List (Evidence × Option PackedFact)} {p : Packing}
    (h : Packed r measure allowance seen p) (candidates : List (Evidence × Option PackedFact)) :
    ∃ done, admitAll r c allowance p candidates = .ok done ∧
      Packed r measure allowance (seen ++ candidates) done ∧ done.env.task = p.env.task := by
  induction candidates generalizing seen p with
  | nil => exact ⟨p, rfl, by simpa using h, rfl⟩
  | cons candidate rest ih =>
    obtain ⟨next, run, packed, task⟩ := admitAtom_packed answers h candidate.1 candidate.2
    obtain ⟨done, later, all, same⟩ := ih packed
    refine ⟨done, except_bind_ok.mpr ⟨next, run, later⟩, ?_, same.trans task⟩
    rw [List.append_cons]
    exact all

end Measure

/-! ## The candidates -/

theorem le_factRevision {db : Db} {f : FactRow} (member : f ∈ db.facts) :
    f.revision ≤ db.factRevision f.taskId f.key := by
  have own : f.revision ∈
      (db.facts.filter fun g => g.taskId == f.taskId && g.key == f.key).map (·.revision) :=
    List.mem_map.mpr ⟨f, List.mem_filter.mpr ⟨member, by simp⟩, rfl⟩
  unfold Db.factRevision
  generalize List.map _ _ = revisions at own
  induction revisions with
  | nil => exact absurd own List.not_mem_nil
  | cons n rest ih =>
    rw [List.foldr_cons]
    rcases List.mem_cons.mp own with rfl | later
    · exact le_max_left _ _
    · exact le_trans (ih later) (le_max_right _ _)

/-- The row is the latest revision of its key. -/
def Db.Latest (db : Db) (row : FactRow) : Prop :=
  row ∈ db.facts ∧ ∀ g ∈ db.facts, g.taskId = row.taskId → g.key = row.key → g.revision ≤ row.revision

theorem mem_latestFacts {db : Db} {taskId : Int} {row : FactRow} (h : row ∈ db.latestFacts taskId) :
    row.taskId = taskId ∧ db.Latest row := by
  rw [Db.latestFacts, List.mem_mergeSort, List.mem_filter] at h
  obtain ⟨member, own⟩ := h
  simp only [Bool.and_eq_true, beq_iff_eq] at own
  obtain ⟨rfl, top⟩ := own
  refine ⟨rfl, member, ?_⟩
  intro g there task key
  rw [top, ← task, ← key]
  exact le_factRevision there

/-- The fact the envelope shows for a row whose source is `m`. -/
def packedFact (row : FactRow) (m : MessageRow) : PackedFact :=
  ⟨citation m.taskId m.id, row.key, row.retracted, row.revision, row.value.canon⟩

theorem factCandidates_ok {db : Db} {rows : List FactRow}
    {out : List (Evidence × Option PackedFact)} (h : factCandidates db rows = .ok out) :
    ∀ c ∈ out, ∃ row ∈ rows, ∃ m, db.message? row.evidenceId = some m ∧
      c = (evidence m (.int 0), some (packedFact row m)) := by
  induction rows generalizing out with
  | nil =>
    cases h
    exact fun _ none_ => absurd none_ List.not_mem_nil
  | cons row rest ih =>
    unfold factCandidates at h
    split at h
    · simp [problem] at h
    · rename_i m found
      obtain ⟨later, run, same⟩ := except_bind_ok.mp h
      cases same
      intro c member
      rcases List.mem_cons.mp member with rfl | member
      · exact ⟨row, List.mem_cons_self, m, found, rfl⟩
      · obtain ⟨row', there, source⟩ := ih run c member
        exact ⟨row', List.mem_cons_of_mem _ there, source⟩

theorem factCandidates_error {db : Db} {rows : List FactRow} {e : Failure}
    (h : factCandidates db rows = .error e) :
    e = .problem .integrity "fact source is missing" := by
  induction rows with
  | nil => cases h
  | cons row rest ih =>
    unfold factCandidates at h
    split at h
    · exact (Except.error.inj h).symm
    · rcases except_bind_error.mp h with here | ⟨_, _, later⟩
      · exact ih here
      · cases later

/-- Each hit of a search is a message, of one of the tasks asked for. -/
theorem search_ok {host : Host} {query : Text} {ids : Option (List Int)} {limit : Int} {db : Db}
    {out : List Evidence} (h : search host query ids limit db = .ok out) :
    ∀ e ∈ out, (∃ m ∈ db.messages, e = evidence m e.score) ∧
      ids.all (·.contains e.taskId) = true := by
  unfold search at h
  split at h
  · simp [problem] at h
  dsimp only at h
  split at h
  · cases h
    exact fun _ none_ => absurd none_ List.not_mem_nil
  · cases h
    intro e member
    obtain ⟨hit, inside⟩ := List.mem_filter.mp (List.mem_of_mem_take member)
    obtain ⟨⟨id, score⟩, _, row⟩ := List.mem_filterMap.mp hit
    obtain ⟨m, found, rfl⟩ := Option.map_eq_some_iff.mp row
    refine ⟨⟨m, List.mem_of_find?_eq_some found, rfl⟩, ?_⟩
    cases ids with
    | none => rfl
    | some ids => exact inside

theorem search_error {host : Host} {query : Text} {ids : Option (List Int)} {limit : Int} {db : Db}
    {e : Failure} (h : search host query ids limit db = .error e) :
    e = .problem .invalid "search limit must be between 1 and 1000" := by
  unfold search at h
  split at h
  · exact (Except.error.inj h).symm
  dsimp only at h
  split at h <;> cases h

theorem mem_recentMessages {db : Db} {taskId limit : Int} {m : MessageRow}
    (h : m ∈ db.recentMessages taskId limit) : m ∈ db.messages ∧ m.taskId = taskId := by
  have sorted := List.mem_of_mem_take h
  rw [List.mem_mergeSort, List.mem_filter, beq_iff_eq] at sorted
  exact sorted

/-! ## The package -/

/-- The package shows the envelope, under a counter that measures its messages. -/
structure Shows (db : Db) (r : Request) (measure : List Message → Int) (p : Package)
    (env : Envelope) : Prop where
  messages : p.messages = messages r env
  used : p.usedUnits = measure p.messages
  fits : p.usedUnits ≤ r.budget - r.reserve
  encoded : p.messagesJson = Json.marshal (.arr (p.messages.map Message.toJson))
  distinct : (env.evidence.map (·.id)).Nodup
  citations : p.citations = env.evidence.map (·.citation)
  facts : ∀ f ∈ env.facts, ∃ row, row.taskId = r.taskId ∧ db.Latest row ∧
    ∃ m, db.message? row.evidenceId = some m ∧ f = packedFact row m ∧
      ∃ e ∈ env.evidence, e.id = row.evidenceId
  evidence : ∀ e ∈ env.evidence, (∃ m ∈ db.messages, e = Cmpath.evidence m e.score) ∧
    ((∃ f ∈ env.facts, f.citation = e.citation) ∨ InScope db r.taskId r.scope e.taskId ∨
      ∃ m ∈ db.recentMessages r.taskId r.recent, e = Cmpath.evidence m e.score)

section Pack

variable {host : Host} {db : Db} {r : Request} {c : Counter} {measure : List Message → Int}

/-- Each item of a packing over the three candidate streams is what the stream promises. -/
theorem Packed.shows {allowance : Int} {facts : List (Evidence × Option PackedFact)}
    {ranked : List Evidence} {recent : List MessageRow} {ids : Option (List Int)} {done : Packing}
    (known : r.scope = Text.lit "task" ∨ r.scope = Text.lit "lineage" ∨ r.scope = Text.lit "all")
    (bounds : scope r.taskId r.scope db = .ok ids)
    (factual : factCandidates db (db.latestFacts r.taskId) = .ok facts)
    (found : search host r.query ids r.retrievalLimit db = .ok ranked)
    (late : ∀ m ∈ recent, m ∈ db.recentMessages r.taskId r.recent)
    (h : Packed r measure allowance (facts ++ ranked.map (fun ev => (ev, none)) ++
      recent.map fun m => (Cmpath.evidence m (.int 0), none)) done)
    {p : Package} (built : p = { p with
      messages := done.payload
      messagesJson := Json.marshal (.arr (done.payload.map Message.toJson))
      usedUnits := done.used, citations := done.env.evidence.map (·.citation) })
    (size : allowance = r.budget - r.reserve) :
    Shows db r measure p done.env := by
  have factual := factCandidates_ok factual
  have found := search_ok found
  have noFact : ∀ e, (e, none) ∉ facts := by
    intro e member
    obtain ⟨_, _, _, _, same⟩ := factual _ member
    cases same
  have onlyFact : ∀ e f, (e, some f) ∈ facts ++ ranked.map (fun ev => (ev, none)) ++
      recent.map (fun m => (Cmpath.evidence m (.int 0), none)) → (e, some f) ∈ facts := by
    intro e f member
    simpa using member
  rw [built]
  refine ⟨h.payload, h.used, size ▸ h.fits, rfl, h.distinct, rfl, ?_, ?_⟩
  · intro f member
    obtain ⟨ev, candidate, e, there, id⟩ := h.facts f member
    obtain ⟨row, latest, m, source, same⟩ := factual _ (onlyFact ev f candidate)
    obtain ⟨own, latest⟩ := mem_latestFacts latest
    obtain ⟨rfl, rfl⟩ := Prod.mk.inj same |>.imp_right Option.some.inj
    refine ⟨row, own, latest, m, source, rfl, e, there, ?_⟩
    rw [id]
    exact message?_id source
  · intro e member
    rcases h.evidence e member with ⟨f, included, candidate⟩ | candidate
    · obtain ⟨row, _, m, source, same⟩ := factual _ (onlyFact e f candidate)
      obtain ⟨rfl, rfl⟩ := Prod.mk.inj same |>.imp_right Option.some.inj
      exact ⟨⟨m, List.mem_of_find?_eq_some source, rfl⟩, Or.inl ⟨_, included, rfl⟩⟩
    · rcases List.mem_append.mp candidate with candidate | candidate
      · rcases List.mem_append.mp candidate with candidate | candidate
        · exact absurd candidate (noFact e)
        · obtain ⟨hit, ranked, same⟩ := List.mem_map.mp candidate
          cases same
          obtain ⟨row, inside⟩ := found e ranked
          exact ⟨row, Or.inr (Or.inl ((scope_mem known bounds _).mp inside))⟩
      · obtain ⟨m, listed, same⟩ := List.mem_map.mp candidate
        cases same
        exact ⟨⟨m, (mem_recentMessages (late m listed)).1, rfl⟩, Or.inr (Or.inr ⟨m, late m listed, rfl⟩)⟩

/-- The packing `pack` starts from. -/
theorem Packed.start {t : Task} (fits : measure (messages r ⟨t, [], []⟩) ≤ r.budget - r.reserve) :
    Packed r measure (r.budget - r.reserve) []
      ⟨⟨t, [], []⟩, messages r ⟨t, [], []⟩, measure (messages r ⟨t, [], []⟩), [], 0, 2⟩ :=
  ⟨rfl, rfl, fits, fun _ => by simp, List.nodup_nil, nofun, nofun⟩

/-- The recent messages of a request (`context.go:243-253`). -/
def recentOf (db : Db) (r : Request) : List MessageRow :=
  if r.recent > 0 then db.recentMessages r.taskId r.recent else []

/-- The package of a packing (`context.go:255-267`). -/
def packageOf (r : Request) (c : Counter) (t : Task) (done : Packing) : Package where
  messages := done.payload
  messagesJson := Json.marshal (.arr (done.payload.map Message.toJson))
  usedUnits := done.used
  inputAllowance := r.budget - r.reserve
  counting := c.name
  citations := done.env.evidence.map (·.citation)
  omittedCandidates := done.omitted
  snapshot := t.snapshot

/-- A request whose mandatory part fits is packed, unless a fact has lost its source or the search
    is refused. -/
theorem pack_fits (answers : Measures c measure) {t : Task} {ids : Option (List Int)}
    (found : task r.taskId db = .ok t) (bounds : scope r.taskId r.scope db = .ok ids)
    (fits : measure (messages r ⟨t, [], []⟩) ≤ r.budget - r.reserve) :
    (∃ facts ranked done, factCandidates db (db.latestFacts r.taskId) = .ok facts ∧
      search host r.query ids r.retrievalLimit db = .ok ranked ∧
      Packed r measure (r.budget - r.reserve) (facts ++ ranked.map (fun ev => (ev, none)) ++
        (recentOf db r).map fun m => (evidence m (.int 0), none)) done ∧
      pack host r c db = .ok (packageOf r c t done)) ∨
    pack host r c db = .error (.problem .integrity "fact source is missing") ∨
    pack host r c db =
      .error (.problem .invalid "search limit must be between 1 and 1000") := by
  have id := (task_parents found).1
  have size : ¬ r.budget - r.reserve < measure (messages r ⟨t, [], []⟩) := Int.not_lt.mpr fits
  cases factual : factCandidates db (db.latestFacts r.taskId) with
  | error e =>
    rw [factCandidates_error factual] at factual
    refine Or.inr (Or.inl ?_)
    simp [pack, found, id, bounds, answers.count, size, factual, bind, Except.bind]
  | ok facts =>
    obtain ⟨withFacts, first, packed, _⟩ := admitAll_packed answers (Packed.start fits) facts
    cases hits : search host r.query ids r.retrievalLimit db with
    | error e =>
      rw [search_error hits] at hits
      refine Or.inr (Or.inr ?_)
      simp [pack, found, id, bounds, answers.count, size, factual, first, hits, bind, Except.bind]
    | ok ranked =>
      obtain ⟨withRanked, second, packed, _⟩ :=
        admitAll_packed answers packed (ranked.map fun ev => (ev, none))
      obtain ⟨done, third, packed, _⟩ := admitAll_packed answers packed
        ((recentOf db r).map fun m => (evidence m (.int 0), none))
      rw [List.nil_append] at packed
      refine Or.inl ⟨facts, ranked, done, rfl, rfl, packed, ?_⟩
      unfold recentOf at third
      simp [pack, found, id, bounds, answers.count, size, factual, first, hits, second, third, bind,
        Except.bind, packageOf]

/-- One whose mandatory part is too large is refused for it. -/
theorem pack_exceeds (answers : Measures c measure) {t : Task} {ids : Option (List Int)}
    (found : task r.taskId db = .ok t) (bounds : scope r.taskId r.scope db = .ok ids)
    (exceeds : r.budget - r.reserve < measure (messages r ⟨t, [], []⟩)) :
    pack host r c db = problem .budget
      "system, task snapshot and current query exceed the input allowance" := by
  have id := (task_parents found).1
  simp [pack, found, id, bounds, answers.count, exceeds, bind, Except.bind]

end Pack

/-- `pack` packs correctly, and it refuses a request for its size exactly when the mandatory part
    alone is too large. -/
theorem pack_correct {host : Host} {db : Db} (linked : db.Linked) {input r : Request}
    {custom : List CustomCounter} {c : Counter}
    (admissible : normalizeRequest input custom = .ok (r, c))
    {measure : List Message → Int} (answers : Measures c measure) :
    (∀ p, pack host r c db = .ok p → ∃ env, Shows db r measure p env) ∧
      ((∃ m, pack host r c db = .error (.problem .budget m)) ↔
        ∃ t, task r.taskId db = .ok t ∧
          r.budget - r.reserve < measure (messages r ⟨t, [], []⟩)) := by
  have known := (normalizeRequest_ok admissible).scope
  cases found : task r.taskId db with
  | error e =>
    have missing : pack host r c db = .error e := by simp [pack, found, bind, Except.bind]
    have code : ∀ m, e ≠ .problem .budget m := by
      rintro m rfl
      unfold task at found
      split at found <;> simp [problem] at found
    rw [missing]
    simp [code]
  | ok t =>
    obtain ⟨ids, bounds⟩ := scope_total linked r.scope (row_of_task found)
    by_cases fits : measure (messages r ⟨t, [], []⟩) ≤ r.budget - r.reserve
    · have size : ¬ r.budget - r.reserve < measure (messages r ⟨t, [], []⟩) := Int.not_lt.mpr fits
      rcases pack_fits answers found bounds fits with
        ⟨facts, ranked, done, factual, hits, packed, run⟩ | run | run
      · rw [run]
        refine ⟨?_, by simp [size]⟩
        rintro p same
        cases same
        refine ⟨done.env, packed.shows known bounds factual hits ?_ rfl rfl⟩
        intro m member
        unfold recentOf at member
        split at member
        · exact member
        · exact absurd member List.not_mem_nil
      · rw [run]
        simp [size]
      · rw [run]
        simp [size]
    · rw [pack_exceeds answers found bounds (Int.not_le.mp fits)]
      refine ⟨fun p same => by simp [problem] at same, ?_⟩
      simp only [problem, Except.error.injEq, Failure.problem.injEq, true_and, exists_eq',
        Except.ok.injEq, exists_eq_left', true_iff]
      exact Int.not_le.mp fits

/-- A task alone in its store, and the request and the counter of the small store. -/
theorem pack_correct_plain : ∃ p, pack plainHost
      { withDefaults plainRequest with counting := Text.lit "free" } ⟨Text.lit "free", fun _ _ => .ok 0⟩
      { Db.empty with tasks := [⟨1, Text.lit "t", .opened, .obj [], 1, .epoch⟩] } = .ok p ∧
    ∃ env, Shows { Db.empty with tasks := [⟨1, Text.lit "t", .opened, .obj [], 1, .epoch⟩] }
      { withDefaults plainRequest with counting := Text.lit "free" } (fun _ => 0) p env := by
  obtain ⟨p, run⟩ := exists_ok (x := pack plainHost
      { withDefaults plainRequest with counting := Text.lit "free" } ⟨Text.lit "free", fun _ _ => .ok 0⟩
      { Db.empty with tasks := [⟨1, Text.lit "t", .opened, .obj [], 1, .epoch⟩] }) (by decide +kernel)
  have linked : Db.Linked
      { Db.empty with tasks := [⟨1, Text.lit "t", .opened, .obj [], 1, .epoch⟩] } := nofun
  have answers : Measures ⟨Text.lit "free", fun _ _ => .ok 0⟩ fun _ => 0 :=
    ⟨fun _ _ => rfl, fun _ => le_refl 0⟩
  have admissible : normalizeRequest plainRequest [plainCounter] =
      .ok ({ withDefaults plainRequest with counting := Text.lit "free" },
        ⟨Text.lit "free", fun _ _ => .ok 0⟩) := rfl
  exact ⟨p, run, (pack_correct linked admissible answers).1 p run⟩

end Cmpath
