import Cmpath.Journal.Lineage
import Cmpath.Lib.Offers

/-!
# What the omitted candidates count

`omitted_candidates` of a package, in both languages: how often an attempt left its atom out. Python
tries an atom once, so it is the number of different candidates the payload lacks. The engine tries a
message again that was found and is recent, and counts it again.
-/

namespace Cmpath
open Lib Lib.Txn

/-- What a candidate is known by: a field of the task, a fact with its source, a message. -/
inductive AtomKey where
  | title
  | snapshot
  | fact (taskId : Int) (key : Text)
  | evidence (id : Int)
  deriving DecidableEq

namespace TaskMemory

def Atom.key : Atom → AtomKey
  | .title _ => .title
  | .snapshot _ => .snapshot
  | .fact f => .fact f.taskId f.key
  | .evidence m => .evidence m.id

/-- The payload has the candidate. -/
def Payload.Has (p : Payload) : AtomKey → Prop
  | .title => p.title.isSome
  | .snapshot => p.snapshot.isSome
  | .fact taskId key => ∃ f ∈ p.facts, f.taskId = taskId ∧ f.key = key
  | .evidence id => ∃ m ∈ p.evidence, m.id = id

instance (p : Payload) : DecidablePred p.Has
  | .title => inferInstanceAs (Decidable (p.title.isSome = true))
  | .snapshot => inferInstanceAs (Decidable (p.snapshot.isSome = true))
  | .fact taskId key => inferInstanceAs (Decidable (∃ f ∈ p.facts, f.taskId = taskId ∧ f.key = key))
  | .evidence id => inferInstanceAs (Decidable (∃ m ∈ p.evidence, m.id = id))

section Put

variable {p : Payload} {news : List MessageRow} {atom : Atom}

theorem put_has_self : (p.put news atom).Has atom.key := by
  cases atom with
  | title t => rfl
  | snapshot j => rfl
  | fact f => exact ⟨f, List.mem_append_right _ (List.mem_singleton_self f), rfl, rfl⟩
  | evidence m => exact ⟨m, List.mem_append_right _ (List.mem_singleton_self m), rfl⟩

/-- An atom adds itself, and a fact the source it brings. -/
theorem put_has {k : AtomKey} (other : k ≠ atom.key)
    (apart : ∀ f, atom = .fact f → ∀ m ∈ news, k ≠ .evidence m.id) :
    (p.put news atom).Has k ↔ p.Has k := by
  cases atom with
  | title t =>
    cases k with
    | title => exact absurd rfl other
    | _ => exact Iff.rfl
  | snapshot j =>
    cases k with
    | snapshot => exact absurd rfl other
    | _ => exact Iff.rfl
  | fact f =>
    cases k with
    | fact taskId key =>
      have mine : ¬(f.taskId = taskId ∧ f.key = key) := by
        rintro ⟨rfl, rfl⟩
        exact other rfl
      simp [Payload.put, Payload.Has, mine]
    | evidence id =>
      have mine : ∀ m ∈ news, m.id ≠ id := fun m member same => apart f rfl m member (by rw [same])
      simp only [Payload.put, Payload.Has, List.mem_append]
      constructor
      · rintro ⟨m, old | new, same⟩
        · exact ⟨m, old, same⟩
        · exact absurd same (mine m new)
      · rintro ⟨m, old, same⟩
        exact ⟨m, .inl old, same⟩
    | _ => exact Iff.rfl
  | evidence m =>
    cases k with
    | evidence id =>
      have mine : m.id ≠ id := fun same => other (by rw [← same]; rfl)
      simp [Payload.put, Payload.Has, mine]
    | _ => exact Iff.rfl

end Put

/-! ## Python tries an atom once -/

/-- The offers made so far: each candidate once, and the payload has what was taken. -/
structure Ledger (offers : Offers AtomKey) (s : Assembly) : Prop where
  omitted : s.omitted = (offers.turnedDown : Int)
  distinct : offers.keys.Nodup
  settles : Offers.Settles s.payload.Has offers

namespace Ledger

variable {offers : Offers AtomKey} {s : Assembly} {atom : Atom} {news : List MessageRow}

theorem distinct_offer (h : Ledger offers s) {k : AtomKey} (fresh : k ∉ offers.keys) (down : Bool) :
    (Offers.keys (offers ++ [(k, down)])).Nodup := by
  rw [Offers.keys, List.map_append, List.nodup_append]
  refine ⟨h.distinct, List.nodup_singleton _, ?_⟩
  rintro a old b new rfl
  have same : a = k := List.mem_singleton.mp new
  exact fresh (same ▸ old)

theorem took (h : Ledger offers s) (fresh : atom.key ∉ offers.keys)
    (apart : ∀ f, atom = .fact f → ∀ m ∈ news, AtomKey.evidence m.id ∉ offers.keys) :
    Ledger (offers ++ [(atom.key, false)]) (s.take news atom) := by
  have payload : (s.take news atom).payload = s.payload.put news atom := by
    cases atom <;> rfl
  have same : (s.take news atom).omitted = s.omitted := by
    cases atom <;> rfl
  refine ⟨?_, h.distinct_offer fresh false, ?_⟩
  · rw [same, h.omitted, Offers.turnedDown_append]
    rfl
  · rw [payload]
    refine h.settles.offer fresh (fun k member => ?_) (by simp [put_has_self])
    exact put_has (fun same => fresh (same ▸ member))
      fun f fact m new same => apart f fact m new (same ▸ member)

theorem left (h : Ledger offers s) (fresh : atom.key ∉ offers.keys)
    (gone : ¬s.payload.Has atom.key) : Ledger (offers ++ [(atom.key, true)]) (s.leave atom) := by
  have more : (s.leave atom).omitted = s.omitted + 1 := by
    cases atom <;> rfl
  refine ⟨?_, h.distinct_offer fresh true, ?_⟩
  · rw [more, h.omitted, Offers.turnedDown_append]
    rfl
  · rw [Assembly.leave_payload]
    exact h.settles.offer fresh (fun _ _ => Iff.rfl) (by simp [gone])

variable {host : Host} {a : ContextArgs} {db : Db} {s' : Assembly}

/-- What the payload has beside the messages was offered, and no message was. -/
structure Plain (offers : Offers AtomKey) (s : Assembly) : Prop where
  held : ∀ k, s.payload.Has k → k ∈ offers.keys ∨ ∃ id, k = .evidence id
  noEvidence : ∀ id, AtomKey.evidence id ∉ offers.keys

/-- Title, snapshot and facts, each different from those before. -/
theorem trail {trail : List Tried} (run : Trail host a db s trail s')
    (plain : ∀ t ∈ trail, ∀ m, t.atom ≠ .evidence m) :
    ∀ {offers : Offers AtomKey}, Ledger offers s → Plain offers s →
      (offers.keys ++ trail.map (·.atom.key)).Nodup →
      ∃ all : Offers AtomKey, all.keys = offers.keys ++ trail.map (·.atom.key) ∧ Ledger all s' ∧
        Plain all s' := by
  induction run with
  | nil s => exact fun h p _ => ⟨_, (List.append_nil _).symm, h, p⟩
  | @cons s next t atom rest did later ih =>
    intro offers h p distinct
    have other : ∀ m, atom ≠ .evidence m := plain ⟨s, atom, next⟩ List.mem_cons_self
    have kind : ∀ id, atom.key ≠ .evidence id := by
      intro id same
      cases atom with
      | evidence m => exact other m rfl
      | _ => cases same
    rw [List.map_cons, List.append_cons] at distinct
    have fresh : atom.key ∉ offers.keys := by
      intro old
      have first := (List.nodup_append.mp distinct).1
      exact (List.nodup_append.mp first).2.2 _ old _ (List.mem_singleton_self _) rfl
    obtain ⟨down, h', p'⟩ : ∃ down, Ledger (offers ++ [(atom.key, down)]) next ∧
        Plain (offers ++ [(atom.key, down)]) next := by
      have none_ : ∀ down, ∀ id, AtomKey.evidence id ∉ Offers.keys (offers ++ [(atom.key, down)]) := by
        intro down id member
        rw [Offers.keys, List.map_append, List.mem_append] at member
        rcases member with old | new
        · exact p.noEvidence id old
        · exact kind id (List.mem_singleton.mp new).symm
      cases did with
      | took news n brings unseen counted fits =>
        have payload : (s.take news atom).payload = s.payload.put news atom := by
          cases atom <;> rfl
        refine ⟨false, h.took fresh fun _ _ m _ => p.noEvidence m.id, fun k has => ?_, none_ false⟩
        by_cases mine : k = atom.key
        · exact .inl (by simp [mine])
        · by_cases message : ∃ id, k = .evidence id
          · exact .inr message
          · rw [payload, put_has mine fun _ _ m _ same => message ⟨m.id, same⟩] at has
            exact (p.held k has).imp_left fun old => by simp [old]
      | left news n counted exceeds =>
        have gone : ¬s.payload.Has atom.key := by
          intro has
          rcases p.held _ has with old | ⟨id, same⟩
          · exact fresh old
          · exact kind id same
        refine ⟨true, h.left fresh gone, fun k has => ?_, none_ true⟩
        rw [Assembly.leave_payload] at has
        exact (p.held k has).imp_left fun old => by simp [old]
      | seen m known same => exact absurd same (other m)
    have rest_ : (Offers.keys (offers ++ [(atom.key, down)]) ++ rest.map (·.atom.key)).Nodup := by
      rw [Offers.keys, List.map_append]
      exact distinct
    obtain ⟨all, keys, done⟩ :=
      ih (fun t member => plain t (List.mem_cons_of_mem _ member)) h' p' rest_
    refine ⟨all, ?_, done⟩
    rw [keys, Offers.keys, List.map_append, List.append_assoc]
    rfl

/-- A message that has been considered is there or was offered; one that is there or was offered has
    been considered. -/
structure Weighed (offers : Offers AtomKey) (s : Assembly) : Prop where
  known : ∀ id ∈ s.considered, s.payload.Has (.evidence id) ∨ AtomKey.evidence id ∈ offers.keys
  held : ∀ id, s.payload.Has (.evidence id) → id ∈ s.considered
  offered : ∀ id, AtomKey.evidence id ∈ offers.keys → id ∈ s.considered

/-- One message. -/
theorem message {m : MessageRow} (run : tryEvidence host a s m = .ok s') (h : Ledger offers s)
    (w : Weighed offers s) :
    ∃ more : Offers AtomKey, more.keys ⊆ [.evidence m.id] ∧ Ledger (offers ++ more) s' ∧
      Weighed (offers ++ more) s' ∧ m.id ∈ s'.considered ∧ s.considered ⊆ s'.considered := by
  by_cases known : m.id ∈ s.considered
  · unfold tryEvidence at run
    rw [if_pos (by simpa using known)] at run
    cases run
    refine ⟨[], List.nil_subset _, ?_, ?_, known, List.Subset.refl _⟩
    · rw [List.append_nil]
      exact h
    · rw [List.append_nil]
      exact w
  · have fresh : (Atom.evidence m).key ∉ offers.keys := fun old => known (w.offered _ old)
    have gone : ¬s.payload.Has (.evidence m.id) := fun has => known (w.held _ has)
    have keys : ∀ (down : Bool) k, k ∈ Offers.keys (offers ++ [(AtomKey.evidence m.id, down)]) ↔
        k ∈ offers.keys ∨ k = .evidence m.id := by simp
    have did : Did host a .empty s (.evidence m) s' := tryEvidence_ok run
    cases did with
    | took news n brings unseen counted fits =>
      have apart : ∀ f, Atom.evidence m = .fact f → ∀ n ∈ news,
          AtomKey.evidence n.id ∉ offers.keys := by
        intro f fact
        cases fact
      have has : ∀ id, (s.payload.put news (.evidence m)).Has (.evidence id) ↔
          s.payload.Has (.evidence id) ∨ id = m.id := by
        intro id
        simp [Payload.put, Payload.Has, or_and_right, exists_or, eq_comm]
      refine ⟨[(.evidence m.id, false)], by simp, h.took fresh apart, ?_,
        List.mem_cons_self, fun _ => List.mem_cons_of_mem _⟩
      refine ⟨fun id member => ?_, fun id there => ?_, fun id member => ?_⟩
      · rcases List.mem_cons.mp member with rfl | old
        · exact .inr ((keys _ _).mpr (.inr rfl))
        · exact (w.known id old).imp (fun there => (has id).mpr (.inl there))
            fun offer => (keys _ _).mpr (.inl offer)
      · rcases (has id).mp there with old | rfl
        · exact List.mem_cons_of_mem _ (w.held id old)
        · exact List.mem_cons_self
      · rcases (keys _ _).mp member with old | same
        · exact List.mem_cons_of_mem _ (w.offered id old)
        · cases same
          exact List.mem_cons_self
    | left news n counted exceeds =>
      refine ⟨[(.evidence m.id, true)], by simp, h.left fresh gone, ?_,
        List.mem_cons_self, fun _ => List.mem_cons_of_mem _⟩
      refine ⟨fun id member => ?_, fun id there => List.mem_cons_of_mem _ (w.held id there),
        fun id member => ?_⟩
      · rcases List.mem_cons.mp member with rfl | old
        · exact .inr ((keys _ _).mpr (.inr rfl))
        · exact (w.known id old).imp_right fun offer => (keys _ _).mpr (.inl offer)
      · rcases (keys _ _).mp member with old | same
        · exact List.mem_cons_of_mem _ (w.offered id old)
        · cases same
          exact List.mem_cons_self
    | seen other there same =>
      cases same
      exact absurd (by simpa using there) known

/-- All the messages. -/
theorem candidates {ms : List MessageRow} (run : attemptAll host a db s (ms.map .evidence) = .ok s')
    (h : Ledger offers s) (w : Weighed offers s) :
    ∃ more : Offers AtomKey, more.keys ⊆ ms.map (fun m => .evidence m.id) ∧
      Ledger (offers ++ more) s' ∧ Weighed (offers ++ more) s' ∧
      (∀ m ∈ ms, m.id ∈ s'.considered) ∧ s.considered ⊆ s'.considered := by
  induction ms generalizing s offers with
  | nil =>
    cases run
    exact ⟨[], List.nil_subset _, by rw [List.append_nil]; exact h,
      by rw [List.append_nil]; exact w, fun _ none_ => absurd none_ List.not_mem_nil,
      List.Subset.refl _⟩
  | cons m rest ih =>
    obtain ⟨next, first, later⟩ := except_bind_ok.mp run
    obtain ⟨one, oneKeys, h, w, now, grows⟩ := h.message first w
    obtain ⟨more, keys, h, w, others, grows'⟩ := ih later h w
    refine ⟨one ++ more, ?_, ?_, ?_, ?_, List.Subset.trans grows grows'⟩
    · rw [Offers.keys, List.map_append, List.map_cons]
      refine List.append_subset.mpr ⟨fun k member => ?_, fun k member => ?_⟩
      · rw [List.mem_singleton.mp (oneKeys member)]
        exact List.mem_cons_self
      · exact List.mem_cons_of_mem _ (keys member)
    · rw [← List.append_assoc]
      exact h
    · rw [← List.append_assoc]
      exact w
    · intro x member
      rcases List.mem_cons.mp member with rfl | later
      · exact grows' now
      · exact others x later

end Ledger

/-- The current facts of different tasks are different. -/
theorem facts_distinct {host : Host} {db : Db} {tids : List Int} (distinct : tids.Nodup) :
    ((tids.flatMap (factsOf host db)).map fun f => AtomKey.fact f.taskId f.key).Nodup := by
  have row : ∀ {tid : Int} {f : Fact}, f ∈ factsOf host db tid → f.taskId = tid := by
    intro tid f member
    obtain ⟨row, own, _, rfl⟩ := mem_factsOf member
    exact own
  have once : ∀ tid, (factKeys db tid).Nodup := fun tid =>
    (List.mergeSort_perm _ _).nodup_iff.mpr (nodup_eraseDups _)
  have own : ∀ {tid key} {f : Fact},
      (currentRow db tid key).map (factOf host) = some f → f.key = key := by
    intro tid key f found
    obtain ⟨row, current, rfl⟩ := Option.map_eq_some_iff.mp found
    have member := List.mem_mergeSort.mp (List.mem_of_mem_head? current)
    have same := (List.mem_filter.mp member).2
    simp only [Bool.and_eq_true, beq_iff_eq] at same
    exact same.2
  rw [List.map_flatMap, List.nodup_flatMap]
  constructor
  · intro tid _
    have apart : (factsOf host db tid).Pairwise fun f g => f.key ≠ g.key := by
      refine List.Pairwise.filterMap _ (fun key key' other f found g found' => ?_) (once tid)
      rw [own found, own found']
      exact other
    refine List.Pairwise.map _ (fun f g other same => ?_) apart
    injection same with _ key
    exact other key
  · refine distinct.imp fun {tid other} apart => ?_
    rw [Function.onFun, List.disjoint_left]
    intro k first second
    obtain ⟨f, there, rfl⟩ := List.mem_map.mp first
    obtain ⟨g, there', same⟩ := List.mem_map.mp second
    injection same with task _
    exact apart ((row there).symm.trans (task.symm.trans (row there')))

theorem tasks_distinct {db : Db} {taskId : Int} {a : ContextArgs} {tids : List Int}
    (h : contextTasks a taskId db = .ok tids) : tids.Nodup := by
  unfold contextTasks at h
  split at h
  · cases h
    exact List.nodup_singleton _
  · rw [lineage_walk h, Walk.walk_eq_rings]
    exact Walk.nodup_rings 3

/-- The candidates of a request: the two fields, the current facts of the tasks, the messages found
    and the recent ones. -/
def candidateKeys (host : Host) (db : Db) (taskId : Int) (a : ContextArgs) (tids : List Int)
    (found : List MessageRow) : List AtomKey :=
  [.title, .snapshot] ++ (tids.flatMap (factsOf host db)).map (fun f => .fact f.taskId f.key) ++
    (if a.recent = 0 then found else found ++ recentMessages db taskId a.recent).map
      fun m => .evidence m.id

/-- A package is read back as the messages of its payload, and `omitted_candidates` is the number of
    different candidates the payload lacks. -/
structure Omits (host : Host) (db : Db) (taskId : Int) (a : ContextArgs) (p : ContextPackage)
    (tids : List Int) (found : List MessageRow) (payload : Payload) : Prop where
  tasks : contextTasks a taskId db = .ok tids
  hits : search host a.query (if a.scope = Text.lit "all" then none else some tids)
    a.retrievalLimit db = .ok found
  messages : ∃ ms, contextMessages host a payload = .ok ms ∧ p.asMessages = some ms
  omitted : p.omittedCandidates =
    (Offers.absent payload.Has (candidateKeys host db taskId a tids found) : Int)

theorem context_omits {host : Host} {db : Db} {taskId : Int} {a : ContextArgs} {p : ContextPackage}
    (h : context host taskId a db = .ok p) :
    ∃ tids found payload, Omits host db taskId a p tids found payload := by
  obtain ⟨task, tids, found, withFields, mid, done, ran⟩ := context_ran h
  obtain ⟨ms, shown, encoded⟩ := ran.shown
  refine ⟨tids, found, done.payload, ran.tasks, ran.hits, ⟨ms, shown, asMessages_of_json encoded⟩, ?_⟩
  obtain ⟨one, fieldTrail, fieldAtoms⟩ := attemptAll_fields rfl rfl ran.fields
  obtain ⟨two, factTrail, factAtoms⟩ := attemptFacts_ok ran.facts
  have run := fieldTrail.append factTrail
  have atoms : (one ++ two).map (·.atom) = [.title task.title,
      .snapshot (task.snapshot.held host.floatRepr)] ++ (tids.flatMap (factsOf host db)).map .fact := by
    rw [List.map_append, fieldAtoms, factAtoms]
  have keys : (one ++ two).map (·.atom.key) =
      [.title, .snapshot] ++ (tids.flatMap (factsOf host db)).map fun f => .fact f.taskId f.key := by
    calc (one ++ two).map (·.atom.key) = ((one ++ two).map (·.atom)).map Atom.key := by
          rw [List.map_map]
          rfl
      _ = _ := by
          rw [atoms, List.map_append, List.map_map]
          rfl
  have factual : ∀ t ∈ one ++ two, ∀ m, t.atom ≠ .evidence m := by
    intro t member m same
    have listed : Atom.evidence m ∈ (one ++ two).map (·.atom) := List.mem_map.mpr ⟨t, member, same⟩
    rw [atoms] at listed
    simp at listed
  have distinct : (Offers.keys ([] : Offers AtomKey) ++
      (one ++ two).map (·.atom.key)).Nodup := by
    rw [keys, Offers.keys, List.map_nil, List.nil_append]
    refine List.nodup_append.mpr ⟨by decide, facts_distinct (tasks_distinct ran.tasks), ?_⟩
    rintro k field l fact rfl
    obtain ⟨f, _, rfl⟩ := List.mem_map.mp fact
    simp at field
  have bare : Ledger.Plain [] { payload := { taskId := taskId } } := by
    refine ⟨fun k has => ?_, fun id => List.not_mem_nil⟩
    cases k with
    | evidence id => exact .inr ⟨id, rfl⟩
    | title | snapshot => cases has
    | fact => simp [Payload.Has] at has
  have blank : Ledger [] { payload := { taskId := taskId } } := ⟨rfl, List.nodup_nil, .nil⟩
  obtain ⟨offers, offered, ledger, plain⟩ := Ledger.trail run factual blank bare distinct
  -- what is selected once the facts are in are their sources
  obtain ⟨n, counted, small⟩ := ran.small
  have start : Assembled host a (fun _ => True) (fun _ => True) { payload := { taskId := taskId } } :=
    ⟨⟨n, counted, small⟩, rfl, fun _ => by simp, List.nodup_nil,
      fun _ none_ => absurd none_ List.not_mem_nil, fun _ none_ => absurd none_ List.not_mem_nil⟩
  have fine : ∀ t ∈ one ++ two, t.atom.Fine db (fun _ => True) fun _ => True := by
    intro t _
    unfold Atom.Fine
    split <;> simp
  have selected : ∀ id, id ∈ mid.selected ↔ mid.payload.Has (.evidence id) := by
    intro id
    rw [(start.trail run fine factual).selected id, List.mem_map]
    rfl
  have weighed : Ledger.Weighed offers { mid with considered := mid.selected } :=
    ⟨fun id member => .inl ((selected id).mp member), fun id has => (selected id).mpr has,
      fun id offer => absurd offer (plain.noEvidence id)⟩
  obtain ⟨more, moreKeys, last, done_, tried, _⟩ := Ledger.candidates ran.candidates
    (s := { mid with considered := mid.selected })
    ⟨ledger.omitted, ledger.distinct, ledger.settles⟩ weighed
  have all : Offers.keys (offers ++ more) = offers.keys ++ more.keys := List.map_append
  have offered : offers.keys = [.title, .snapshot] ++
      (tids.flatMap (factsOf host db)).map fun f => .fact f.taskId f.key := offered.trans keys
  rw [ran.omitted, last.omitted, Offers.turnedDown_eq_absent last.settles last.distinct]
  congr 1
  refine (Offers.absent_congr ?_ fun k member => ?_).symm
  · rw [all, offered]
    exact List.append_subset.mpr ⟨List.subset_append_left _ _,
      List.Subset.trans moreKeys (List.subset_append_right _ _)⟩
  · rcases List.mem_append.mp member with early | late
    · rw [all, offered]
      exact .inl (List.mem_append_left _ early)
    · obtain ⟨m, there, rfl⟩ := List.mem_map.mp late
      exact (done_.known m.id (tried m there)).symm

end TaskMemory

/-! ## The engine tries a message again -/

def candidateKey (taskId : Int) (candidate : Evidence × Option PackedFact) : AtomKey :=
  match candidate.2 with
  | some f => .fact taskId f.key
  | none => .evidence candidate.1.id

/-- The envelope has the candidate; title and snapshot are in every envelope. -/
def Envelope.Has (env : Envelope) : AtomKey → Prop
  | .title | .snapshot => True
  | .fact taskId key => taskId = env.task.id ∧ ∃ f ∈ env.facts, f.key = key
  | .evidence id => ∃ e ∈ env.evidence, e.id = id

instance (env : Envelope) : DecidablePred env.Has
  | .title | .snapshot => inferInstanceAs (Decidable True)
  | .fact taskId key =>
      inferInstanceAs (Decidable (taskId = env.task.id ∧ ∃ f ∈ env.facts, f.key = key))
  | .evidence id => inferInstanceAs (Decidable (∃ e ∈ env.evidence, e.id = id))

/-- The envelope `admit` proposes (`context.go:192-198`). -/
def Packing.proposal (p : Packing) (candidate : Evidence × Option PackedFact) : Envelope :=
  { p.env with
    evidence :=
      if p.selected.contains candidate.1.id then p.env.evidence else p.env.evidence ++ [candidate.1]
    facts := p.env.facts ++ candidate.2.toList }

/-- The candidate is no message that is there already, and the envelope with it exceeds the
    allowance. -/
def Packing.Exceeds (r : Request) (c : Counter) (allowance : Int) (p : Packing)
    (candidate : Evidence × Option PackedFact) : Prop :=
  (p.selected.contains candidate.1.id && candidate.2.isNone) = false ∧
    ∃ n, count c p.calls (messages r (p.proposal candidate)) = .ok n ∧ allowance < n

/-- Candidates admitted in turn, each with whether it exceeded the allowance at its turn. -/
inductive Admission (r : Request) (c : Counter) (allowance : Int) :
    Packing → List ((Evidence × Option PackedFact) × Bool) → Packing → Prop where
  | done (p : Packing) : Admission r c allowance p [] p
  | next {p mid out : Packing} {candidate : Evidence × Option PackedFact} {down : Bool}
      {rest : List ((Evidence × Option PackedFact) × Bool)}
      (run : admitAtom r c allowance p candidate.1 candidate.2 = .ok mid)
      (verdict : down = true ↔ p.Exceeds r c allowance candidate)
      (later : Admission r c allowance mid rest out) :
      Admission r c allowance p ((candidate, down) :: rest) out

section Engine

variable {r : Request} {c : Counter} {allowance : Int} {p mid out : Packing}

theorem admitAll_admission {candidates : List (Evidence × Option PackedFact)}
    (h : admitAll r c allowance p candidates = .ok out) :
    ∃ trail, Admission r c allowance p trail out ∧ trail.map Prod.fst = candidates := by
  induction candidates generalizing p with
  | nil =>
    cases h
    exact ⟨[], .done _, rfl⟩
  | cons candidate rest ih =>
    obtain ⟨mid, run, later⟩ := except_bind_ok.mp h
    obtain ⟨trail, admission, same⟩ := ih later
    classical
    refine ⟨(candidate, decide (Packing.Exceeds r c allowance _ candidate)) :: trail,
      .next run decide_eq_true_iff admission, ?_⟩
    rw [List.map_cons, same]

theorem Admission.append {first second : List ((Evidence × Option PackedFact) × Bool)}
    (one : Admission r c allowance p first mid) (two : Admission r c allowance mid second out) :
    Admission r c allowance p (first ++ second) out := by
  induction one with
  | done => exact two
  | next run verdict _ ih => exact .next run verdict (ih two)

/-- What became of one candidate. -/
theorem admitAtom_cases {candidate : Evidence × Option PackedFact}
    (h : admitAtom r c allowance p candidate.1 candidate.2 = .ok mid) :
    (mid = p ∧ candidate.1.id ∈ p.selected ∧ candidate.2 = none ∧
        ¬p.Exceeds r c allowance candidate) ∨
      (mid.env = p.proposal candidate ∧ mid.payload = messages r mid.env ∧
        mid.selected = candidate.1.id :: p.selected ∧ mid.omitted = p.omitted ∧
        ¬p.Exceeds r c allowance candidate) ∨
      (mid.env = p.env ∧ mid.payload = p.payload ∧ mid.selected = p.selected ∧
        mid.omitted = p.omitted + 1 ∧ p.Exceeds r c allowance candidate) := by
  unfold admitAtom at h
  by_cases known : (p.selected.contains candidate.1.id && candidate.2.isNone) = true
  · rw [if_pos known] at h
    cases h
    rw [Bool.and_eq_true] at known
    refine .inl ⟨rfl, by simpa using known.1, by simpa using known.2, fun exceeds => ?_⟩
    have apart := exceeds.1
    rw [known.1, known.2] at apart
    cases apart
  · rw [if_neg known] at h
    obtain ⟨n, counted, run⟩ := except_bind_ok.mp h
    by_cases fits : n ≤ allowance
    · rw [if_pos fits] at run
      cases run
      refine .inr (.inl ⟨rfl, rfl, rfl, rfl, ?_⟩)
      rintro ⟨_, m, counted', exceeds⟩
      rw [show count c p.calls (messages r (p.proposal candidate)) = .ok n from counted] at counted'
      cases counted'
      omega
    · rw [if_neg fits] at run
      cases run
      exact .inr (.inr ⟨rfl, rfl, rfl, rfl, Bool.eq_false_iff.mpr known, n, counted,
        Int.not_le.mp fits⟩)

/-- The offers an admission makes. -/
def offersOf (taskId : Int) (trail : List ((Evidence × Option PackedFact) × Bool)) :
    Offers AtomKey :=
  trail.map fun t => (candidateKey taskId t.1, t.2)

/-- The offers made so far and the packing they led to. -/
structure PackLedger (r : Request) (taskId : Int) (offers : Offers AtomKey) (p : Packing) : Prop where
  task : p.env.task.id = taskId
  payload : p.payload = messages r p.env
  omitted : p.omitted = (offers.turnedDown : Int)
  selected : ∀ id, id ∈ p.selected ↔ p.env.Has (.evidence id)
  settles : Offers.Settles p.env.Has offers

namespace PackLedger

variable {taskId : Int} {offers : Offers AtomKey} {candidate : Evidence × Option PackedFact}

theorem proposal_evidence (h : PackLedger r taskId offers p) (id : Int) :
    (p.proposal candidate).Has (.evidence id) ↔ id = candidate.1.id ∨ p.env.Has (.evidence id) := by
  unfold Packing.proposal Envelope.Has
  by_cases known : candidate.1.id ∈ p.selected
  · rw [if_pos (by simpa using known)]
    constructor
    · exact .inr
    · rintro (rfl | there)
      · exact (h.selected _).mp known
      · exact there
  · rw [if_neg (by simpa using known)]
    simp [or_and_right, exists_or, or_comm, eq_comm]

theorem proposal_fact (h : PackLedger r taskId offers p) (other : Int) (key : Text) :
    (p.proposal candidate).Has (.fact other key) ↔
      (other = taskId ∧ ∃ f, candidate.2 = some f ∧ f.key = key) ∨ p.env.Has (.fact other key) := by
  unfold Packing.proposal Envelope.Has
  simp only [h.task, List.mem_append, Option.mem_toList, or_and_right, exists_or]
  rw [and_or_left, or_comm]

/-- The facts come first: nothing else is offered before them. -/
structure Factual (taskId : Int) (offers : Offers AtomKey) (p : Packing) : Prop where
  held : ∀ key, p.env.Has (.fact taskId key) → AtomKey.fact taskId key ∈ offers.keys
  noEvidence : ∀ id, AtomKey.evidence id ∉ offers.keys

theorem step (h : PackLedger r taskId offers p) {down : Bool}
    (run : admitAtom r c allowance p candidate.1 candidate.2 = .ok mid)
    (verdict : down = true ↔ p.Exceeds r c allowance candidate)
    (order : candidate.2 = none ∨ Factual taskId offers p) :
    PackLedger r taskId (offers ++ [(candidateKey taskId candidate, down)]) mid := by
  rcases admitAtom_cases run with ⟨rfl, known, message, fits⟩ |
      ⟨env, payload, selected, omitted, fits⟩ | ⟨env, payload, selected, omitted, exceeds⟩
  · -- a message that is there already
    have taken : down = false := Bool.eq_false_iff.mpr fun refused => fits (verdict.mp refused)
    have key : candidateKey taskId candidate = .evidence candidate.1.id := by
      unfold candidateKey
      rw [message]
    subst taken
    refine ⟨h.task, h.payload, ?_, h.selected, h.settles.again (fun _ _ _ => Iff.rfl) ?_⟩
    · rw [h.omitted, Offers.turnedDown_append]
      rfl
    · rw [key]
      simp only [true_or, iff_true]
      exact (h.selected _).mp known
  · have taken : down = false := Bool.eq_false_iff.mpr fun refused => fits (verdict.mp refused)
    subst taken
    refine ⟨by rw [env]; exact h.task, payload, ?_, fun id => ?_, ?_⟩
    · rw [omitted, h.omitted, Offers.turnedDown_append]
      rfl
    · rw [selected, env, h.proposal_evidence, List.mem_cons, h.selected]
    · rw [env]
      refine h.settles.again (fun l member other => ?_) ?_
      · cases l with
        | title | snapshot => exact Iff.rfl
        | fact task key =>
          rw [h.proposal_fact]
          refine ⟨fun has => has.resolve_left ?_, .inr⟩
          rintro ⟨rfl, f, fact, rfl⟩
          refine other ?_
          unfold candidateKey
          rw [fact]
        | evidence id =>
          rw [h.proposal_evidence]
          refine ⟨fun has => has.resolve_left ?_, .inr⟩
          rintro rfl
          rcases order with message | facts
          · refine other ?_
            unfold candidateKey
            rw [message]
          · exact facts.noEvidence _ member
      · simp only [true_or, iff_true]
        unfold candidateKey
        split
        · rename_i f fact
          exact (h.proposal_fact taskId f.key).mpr (.inl ⟨rfl, f, fact, rfl⟩)
        · exact (h.proposal_evidence _).mpr (.inl rfl)
  · have refused : down = true := verdict.mpr exceeds
    subst refused
    refine ⟨by rw [env]; exact h.task, by rw [payload, env]; exact h.payload, ?_,
      fun id => by rw [selected, env]; exact h.selected id, ?_⟩
    · rw [omitted, h.omitted, Offers.turnedDown_append]
      rfl
    · rw [env]
      refine h.settles.again (fun _ _ _ => Iff.rfl) ?_
      simp only [Bool.true_eq_false, false_or]
      by_cases old : candidateKey taskId candidate ∈ offers.keys
      · exact h.settles _ old
      · have gone : ¬p.env.Has (candidateKey taskId candidate) := by
          unfold candidateKey at old ⊢
          split at old
          · rename_i f fact
            rcases order with message | facts
            · rw [message] at fact
              cases fact
            · exact fun has => old (facts.held f.key has)
          · rename_i message
            intro has
            have there := (h.selected _).mpr has
            have apart := exceeds.1
            rw [message] at apart
            simp [there] at apart
        have never : (candidateKey taskId candidate, false) ∉ offers :=
          fun taken => old (List.mem_map.mpr ⟨_, taken, rfl⟩)
        exact iff_of_false gone never

theorem Factual.step (h : PackLedger r taskId offers p) (facts : Factual taskId offers p)
    {down : Bool} {f : PackedFact} (fact : candidate.2 = some f)
    (run : admitAtom r c allowance p candidate.1 candidate.2 = .ok mid) :
    Factual taskId (offers ++ [(candidateKey taskId candidate, down)]) mid := by
  have own : candidateKey taskId candidate = .fact taskId f.key := by
    unfold candidateKey
    rw [fact]
  have keys : ∀ k, k ∈ Offers.keys (offers ++ [(candidateKey taskId candidate, down)]) ↔
      k ∈ offers.keys ∨ k = .fact taskId f.key := by
    intro k
    rw [Offers.keys, List.map_append, List.mem_append, List.map_cons, List.map_nil,
      List.mem_singleton, own]
  refine ⟨fun key has => (keys _).mpr ?_, fun id member => ?_⟩
  · rcases admitAtom_cases run with ⟨_, _, message, _⟩ | ⟨env, _⟩ | ⟨env, _⟩
    · rw [message] at fact
      cases fact
    · rw [env, h.proposal_fact] at has
      rcases has with ⟨_, g, there, rfl⟩ | old
      · rw [fact] at there
        cases there
        exact .inr rfl
      · exact .inl (facts.held key old)
    · rw [env] at has
      exact .inl (facts.held key has)
  · rcases (keys _).mp member with old | same
    · exact facts.noEvidence id old
    · cases same

/-- The facts. -/
theorem facts {trail : List ((Evidence × Option PackedFact) × Bool)}
    (run : Admission r c allowance p trail out) (all : ∀ t ∈ trail, t.1.2.isSome) :
    ∀ {offers : Offers AtomKey}, PackLedger r taskId offers p → Factual taskId offers p →
      PackLedger r taskId (offers ++ offersOf taskId trail) out := by
  induction run with
  | done p =>
    intro offers h _
    rw [offersOf, List.map_nil, List.append_nil]
    exact h
  | next run verdict later ih =>
    intro offers h first
    obtain ⟨f, fact⟩ := Option.isSome_iff_exists.mp (all _ List.mem_cons_self)
    have rest := ih (fun t member => all t (List.mem_cons_of_mem _ member))
      (h.step run verdict (.inr first)) (first.step h fact run)
    rw [List.append_assoc] at rest
    exact rest

/-- The messages. -/
theorem evidence {trail : List ((Evidence × Option PackedFact) × Bool)}
    (run : Admission r c allowance p trail out) (all : ∀ t ∈ trail, t.1.2 = none) :
    ∀ {offers : Offers AtomKey}, PackLedger r taskId offers p →
      PackLedger r taskId (offers ++ offersOf taskId trail) out := by
  induction run with
  | done p =>
    intro offers h
    rw [offersOf, List.map_nil, List.append_nil]
    exact h
  | next run verdict later ih =>
    intro offers h
    have rest := ih (fun t member => all t (List.mem_cons_of_mem _ member))
      (h.step run verdict (.inl (all _ List.mem_cons_self)))
    rw [List.append_assoc] at rest
    exact rest

end PackLedger

end Engine

/-- No candidate that exceeded the allowance at its turn is one of the candidates twice. -/
def RefusedOnce (taskId : Int) (trail : List ((Evidence × Option PackedFact) × Bool)) : Prop :=
  ∀ t ∈ trail, t.2 = true →
    (trail.map fun t => candidateKey taskId t.1).count (candidateKey taskId t.1) = 1

/-- The candidates of a request in the order of `pack`: the latest facts, the messages found, the
    recent ones. -/
def packCandidates (db : Db) (r : Request) (facts : List (Evidence × Option PackedFact))
    (ranked : List Evidence) : List (Evidence × Option PackedFact) :=
  facts ++ ranked.map (fun ev => (ev, none)) ++
    (recentOf db r).map fun m => (evidence m (.int 0), none)

/-- A package shows an envelope that came of admitting the candidates in turn, and
    `omitted_candidates` is the number of different candidates the envelope lacks if and only if none
    that was refused is a candidate twice. -/
structure PackOmits (host : Host) (db : Db) (r : Request) (c : Counter) (p : Package) (t : Task)
    (used : Int) (facts : List (Evidence × Option PackedFact)) (ranked : List Evidence)
    (trail : List ((Evidence × Option PackedFact) × Bool)) (done : Packing) : Prop where
  task : Cmpath.task r.taskId db = .ok t
  counted : count c 0 (messages r ⟨t, [], []⟩) = .ok used
  factual : factCandidates db (db.latestFacts r.taskId) = .ok facts
  hits : ∃ ids, scope r.taskId r.scope db = .ok ids ∧
    search host r.query ids r.retrievalLimit db = .ok ranked
  candidates : trail.map Prod.fst = packCandidates db r facts ranked
  run : Admission r c (r.budget - r.reserve)
    ⟨⟨t, [], []⟩, messages r ⟨t, [], []⟩, used, [], 0, 2⟩ trail done
  messages : p.messages = Cmpath.messages r done.env
  omitted : p.omittedCandidates = (Offers.absent done.env.Has
      ((packCandidates db r facts ranked).map (candidateKey r.taskId)) : Int) ↔
    RefusedOnce r.taskId trail

theorem pack_omits {host : Host} {db : Db} {r : Request} {c : Counter} {p : Package}
    (h : pack host r c db = .ok p) :
    ∃ t used facts ranked trail done, PackOmits host db r c p t used facts ranked trail done := by
  unfold pack at h
  obtain ⟨t, found, h⟩ := except_bind_ok.mp h
  obtain ⟨ids, bounds, h⟩ := except_bind_ok.mp h
  obtain ⟨used, counted, h⟩ := except_bind_ok.mp h
  dsimp only at h
  by_cases exceeds : used > r.budget - r.reserve
  · rw [if_pos exceeds] at h
    simp [problem] at h
  rw [if_neg exceeds] at h
  obtain ⟨facts, factual, h⟩ := except_bind_ok.mp h
  obtain ⟨withFacts, first, h⟩ := except_bind_ok.mp h
  obtain ⟨ranked, hits, h⟩ := except_bind_ok.mp h
  obtain ⟨withRanked, second, h⟩ := except_bind_ok.mp h
  obtain ⟨done, third, same⟩ := except_bind_ok.mp h
  cases same
  have id := (task_parents found).1
  rw [id] at bounds factual third
  obtain ⟨one, oneRun, oneKeys⟩ := admitAll_admission first
  obtain ⟨two, twoRun, twoKeys⟩ := admitAll_admission second
  obtain ⟨three, threeRun, threeKeys⟩ := admitAll_admission third
  have keys : (one ++ two ++ three).map Prod.fst = packCandidates db r facts ranked := by
    rw [List.map_append, List.map_append, oneKeys, twoKeys, threeKeys]
    rfl
  have start : PackLedger r r.taskId []
      ⟨⟨t, [], []⟩, messages r ⟨t, [], []⟩, used, [], 0, 2⟩ :=
    ⟨id, rfl, rfl, fun _ => by simp [Envelope.Has], .nil⟩
  have bare : PackLedger.Factual r.taskId []
      ⟨⟨t, [], []⟩, messages r ⟨t, [], []⟩, used, [], 0, 2⟩ :=
    ⟨fun _ has => by simp [Envelope.Has] at has, fun _ => List.not_mem_nil⟩
  have factOnes : ∀ t ∈ one, t.1.2.isSome := by
    intro t member
    have listed : t.1 ∈ facts := oneKeys ▸ List.mem_map_of_mem member
    obtain ⟨_, _, _, _, same⟩ := factCandidates_ok factual _ listed
    rw [same]
    rfl
  have messageOnes : ∀ t ∈ two ++ three, t.1.2 = none := by
    intro t member
    rcases List.mem_append.mp member with hit | recent
    · have listed := twoKeys ▸ List.mem_map_of_mem (f := Prod.fst) hit
      obtain ⟨_, _, same⟩ := List.mem_map.mp listed
      rw [← same]
    · have listed := threeKeys ▸ List.mem_map_of_mem (f := Prod.fst) recent
      obtain ⟨_, _, same⟩ := List.mem_map.mp listed
      rw [← same]
  have ledger := (start.facts oneRun factOnes bare).evidence (twoRun.append threeRun) messageOnes
  have offers : [] ++ offersOf r.taskId one ++ offersOf r.taskId (two ++ three) =
      offersOf r.taskId (one ++ two ++ three) := by
    simp [offersOf]
  rw [offers] at ledger
  have offered : (offersOf r.taskId (one ++ two ++ three)).keys =
      (packCandidates db r facts ranked).map (candidateKey r.taskId) := by
    rw [← keys, List.map_map, Offers.keys, offersOf, List.map_map]
    rfl
  refine ⟨t, used, facts, ranked, one ++ two ++ three, done, found, counted, factual,
    ⟨ids, bounds, hits⟩, keys, (oneRun.append twoRun).append threeRun, ledger.payload, ?_⟩
  show done.omitted = _ ↔ _
  rw [ledger.omitted, ← offered, Int.ofNat_inj, Offers.turnedDown_eq_absent_iff ledger.settles]
  constructor
  · intro once t member refused
    have listed : (candidateKey r.taskId t.1, true) ∈ offersOf r.taskId (one ++ two ++ three) :=
      List.mem_map.mpr ⟨t, member, by rw [← refused]⟩
    have one_ := once _ listed
    rw [Offers.keys, offersOf, List.map_map] at one_
    exact one_
  · intro once k listed
    obtain ⟨t, member, same⟩ := List.mem_map.mp listed
    injection same with key refused
    subst key
    rw [Offers.keys, offersOf, List.map_map]
    exact once t member refused

/-- A task with one message, which every search finds. -/
def oneMessage : Db :=
  { Db.empty with
    tasks := [⟨1, Text.lit "t", .opened, .obj [], 1, .epoch⟩]
    messages := [⟨1, 1, .user, Text.lit "m", .obj [], .epoch⟩] }

def hitHost : Host := { plainHost with isWord := fun _ => true, bm25 := fun _ _ => [(1, .int 1)] }

def lengthCounter : Counter :=
  ⟨Text.lit "length", fun _ ms => .ok (ms.map fun m => (m.content.length : Int)).sum⟩

/-- The mandatory part fits, the message beside it does not. -/
def tightRequest : Request :=
  { requestId := Text.lit "r", taskId := 1, query := Text.lit "q", budget := 300
    scope := Text.lit "task", retrievalLimit := 24, recent := 1 }

/-- **What `omitted_candidates` counts.** In Python it is the number of different candidates the
    payload lacks. In the engine it is so exactly if no candidate that was refused is a candidate
    twice. -/
theorem omitted_candidates_exact (host : Host) (db : Db) :
    (∀ taskId a p, TaskMemory.context host taskId a db = .ok p →
      ∃ tids found payload, TaskMemory.Omits host db taskId a p tids found payload) ∧
    ∀ r c p, pack host r c db = .ok p →
      ∃ t used facts ranked trail done, PackOmits host db r c p t used facts ranked trail done :=
  ⟨fun _ _ _ h => TaskMemory.context_omits h, fun _ _ _ h => pack_omits h⟩

/-- Both packers on a small store. -/
theorem omitted_candidates_exact_small :
    (∃ p, TaskMemory.context plainHost 1 { query := Text.lit "q" } TaskMemory.smallStore = .ok p ∧
      ∃ tids found payload, TaskMemory.Omits plainHost TaskMemory.smallStore 1
        { query := Text.lit "q" } p tids found payload) ∧
    ∃ p, pack hitHost tightRequest lengthCounter oneMessage = .ok p ∧
      ∃ t used facts ranked trail done,
        PackOmits hitHost oneMessage tightRequest lengthCounter p t used facts ranked trail done := by
  obtain ⟨p, run⟩ := exists_ok (x := TaskMemory.context plainHost 1 { query := Text.lit "q" }
    TaskMemory.smallStore) (by decide +kernel)
  obtain ⟨q, packed⟩ := exists_ok (x := pack hitHost tightRequest lengthCounter oneMessage)
    (by decide +kernel)
  exact ⟨⟨p, run, (omitted_candidates_exact _ _).1 _ _ p run⟩,
    ⟨q, packed, (omitted_candidates_exact _ _).2 _ _ q packed⟩⟩

/-- The message is found and is recent. -/
theorem oneMessage_keys {p : Package} {t : Task} {used : Int}
    {facts : List (Evidence × Option PackedFact)} {ranked : List Evidence}
    {trail : List ((Evidence × Option PackedFact) × Bool)} {done : Packing}
    (h : PackOmits hitHost oneMessage tightRequest lengthCounter p t used facts ranked trail done) :
    (packCandidates oneMessage tightRequest facts ranked).map (candidateKey tightRequest.taskId) =
      [.evidence 1, .evidence 1] := by
  have noFacts : facts = [] := by
    have none_ : oneMessage.latestFacts tightRequest.taskId = [] := List.mergeSort_nil
    have factual := h.factual
    rw [none_] at factual
    exact (Except.ok.inj factual).symm
  have found : ranked.map (·.id) = [1] := by
    obtain ⟨ids, bounds, hits⟩ := h.hits
    have own : ids = some [1] := (Except.ok.inj bounds).symm
    have one : ((search hitHost tightRequest.query (some [1]) tightRequest.retrievalLimit
        oneMessage).toOption.map (·.map (·.id))) = some [1] := by decide +kernel
    rw [own] at hits
    rw [hits] at one
    exact Option.some.inj one
  have recent : (recentOf oneMessage tightRequest).map (·.id) = [1] := by decide +kernel
  have ranks : (ranked.map fun ev => ((ev, none) : Evidence × Option PackedFact)).map
      (candidateKey 1) = (ranked.map (·.id)).map .evidence := by
    rw [List.map_map, List.map_map]
    rfl
  have lates : ((recentOf oneMessage tightRequest).map fun m =>
      ((evidence m (.int 0), none) : Evidence × Option PackedFact)).map (candidateKey 1) =
        ((recentOf oneMessage tightRequest).map (·.id)).map .evidence := by
    rw [List.map_map, List.map_map]
    rfl
  show (packCandidates oneMessage tightRequest facts ranked).map (candidateKey 1) = _
  rw [packCandidates, noFacts, List.nil_append, List.map_append, ranks, lates, found, recent]
  rfl

/-- It is the one candidate, and `omitted_candidates` is 2. -/
theorem message_omitted_twice :
    ¬∀ host db r c p, pack host r c db = .ok p → ∀ t used facts ranked trail done,
      PackOmits host db r c p t used facts ranked trail done →
      p.omittedCandidates = (Offers.absent done.env.Has
        ((packCandidates db r facts ranked).map (candidateKey r.taskId)) : Int) := by
  intro always
  have shape : ((pack hitHost tightRequest lengthCounter oneMessage).toOption.map
      (·.omittedCandidates)) = some 2 := by decide +kernel
  obtain ⟨p, run, two⟩ : ∃ p, pack hitHost tightRequest lengthCounter oneMessage = .ok p ∧
      p.omittedCandidates = 2 := by
    cases packed : pack hitHost tightRequest lengthCounter oneMessage with
    | error e =>
      rw [packed] at shape
      cases shape
    | ok p =>
      rw [packed] at shape
      exact ⟨p, rfl, Option.some.inj shape⟩
  obtain ⟨t, used, facts, ranked, trail, done, omits⟩ := pack_omits run
  have counted := always _ _ _ _ p run _ _ _ _ _ _ omits
  rw [two, oneMessage_keys omits] at counted
  have small : Offers.absent done.env.Has [.evidence 1, .evidence 1] ≤ 1 :=
    List.length_filter_le _ _
  omega

end Cmpath
