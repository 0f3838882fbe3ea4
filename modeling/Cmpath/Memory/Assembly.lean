import Cmpath.Memory.Context

/-!
# What a Python context package is

Each attempt of `TaskMemory.context` either adds its atom and the payload still fits, or leaves the
payload as it was (`attempt_ok`). From it, what every assembly keeps (`Assembled`) and what the
returned package is (`Assembles`).
-/

namespace Cmpath
open Lib Lib.Txn

/-- The source of every fact belongs to the fact's task, as `set_fact` and the engine's `setFact`
    require of it. -/
def Db.Sourced (db : Db) : Prop :=
  ∀ f ∈ db.facts, ∀ m, db.message? f.evidenceId = some m → m.taskId = f.taskId

namespace TaskMemory

section Attempt

variable {host : Host} {a : ContextArgs} {db : Db} {s s' : Assembly}

/-! ## One attempt -/

theorem check_ok {condition : Bool} {exc : Exc} {message : String} {u : Unit} :
    check condition exc message = .ok u ↔ condition = true := by
  unfold check
  cases condition <;> simp

/-- One atom between the assembly before it and the one after it. -/
structure Tried where
  before : Assembly
  atom : Atom
  after : Assembly

/-- The payload does not have the field the atom would set. -/
def Payload.Lacks (p : Payload) : Atom → Prop
  | .title _ => p.title = none
  | .snapshot _ => p.snapshot = none
  | _ => True

/-- The payload with an atom added; `news` are the messages a fact brings with it. -/
def Payload.put (p : Payload) (news : List MessageRow) : Atom → Payload
  | .title t => { p with title := some t }
  | .snapshot j => { p with snapshot := some j }
  | .fact f => { p with facts := p.facts ++ [f], evidence := p.evidence ++ news }
  | .evidence m => { p with evidence := p.evidence ++ [m] }

/-- The citation of a message. -/
def cite (m : MessageRow) : Text := citation m.taskId m.id

/-- The assembly with an atom that fits. -/
def Assembly.take (s : Assembly) (news : List MessageRow) (atom : Atom) : Assembly :=
  let payload := s.payload.put news atom
  match atom with
  | .title _ | .snapshot _ => { s with payload := payload }
  | .fact _ =>
      { s with
        payload := payload, selected := news.map (·.id) ++ s.selected
        citations := s.citations ++ news.map cite }
  | .evidence m =>
      { s with
        payload := payload, selected := m.id :: s.selected, considered := m.id :: s.considered
        citations := s.citations ++ [cite m] }

/-- The assembly without an atom that does not fit: only the count of the omitted differs, and what
    has been considered. -/
def Assembly.leave (s : Assembly) : Atom → Assembly
  | .evidence m => { s with considered := m.id :: s.considered, omitted := s.omitted + 1 }
  | _ => { s with omitted := s.omitted + 1 }

@[simp] theorem Assembly.leave_payload (s : Assembly) (atom : Atom) :
    (s.leave atom).payload = s.payload := by
  cases atom <;> rfl

@[simp] theorem Assembly.leave_citations (s : Assembly) (atom : Atom) :
    (s.leave atom).citations = s.citations := by
  cases atom <;> rfl

@[simp] theorem Assembly.leave_selected (s : Assembly) (atom : Atom) :
    (s.leave atom).selected = s.selected := by
  cases atom <;> rfl

/-- The source of a fact, unless it is in the payload already. -/
def Brings (db : Db) (s : Assembly) (f : Fact) (news : List MessageRow) : Prop :=
  ∃ source, message f.evidenceId db = .ok source ∧
    news = if s.selected.contains source.id then [] else [source]

/-- What an attempt did: the payload with the atom was counted, and the atom was taken or left; or
    the evidence had been considered before. -/
inductive Did (host : Host) (a : ContextArgs) (db : Db) (s : Assembly) (atom : Atom) :
    Assembly → Prop where
  | took (news : List MessageRow) (n : Int) (brings : ∀ f, atom = .fact f → Brings db s f news)
      (unseen : ∀ m, atom = .evidence m → s.considered.contains m.id = false)
      (counted : contextCount host a (s.payload.put news atom) = .ok n)
      (fits : n ≤ a.allowance) : Did host a db s atom (s.take news atom)
  | left (news : List MessageRow) (n : Int)
      (counted : contextCount host a (s.payload.put news atom) = .ok n)
      (exceeds : a.allowance < n) : Did host a db s atom (s.leave atom)
  | seen (m : MessageRow) (known : s.considered.contains m.id = true) (same : atom = .evidence m) :
      Did host a db s atom s

theorem tryField_ok {set unset : Payload → Payload}
    (h : tryField host a s set unset = .ok s') :
    ∃ n, contextCount host a (set s.payload) = .ok n ∧
      ((n ≤ a.allowance ∧ s' = { s with payload := set s.payload }) ∨
        (a.allowance < n ∧
          s' = { s with payload := unset (set s.payload), omitted := s.omitted + 1 })) := by
  obtain ⟨n, counted, run⟩ := except_bind_ok.mp h
  refine ⟨n, counted, ?_⟩
  by_cases exceeds : n > a.allowance
  · rw [if_pos exceeds] at run
    cases run
    exact Or.inr ⟨exceeds, rfl⟩
  · rw [if_neg exceeds] at run
    cases run
    exact Or.inl ⟨Int.not_lt.mp exceeds, rfl⟩

theorem tryFact_ok {f : Fact} (h : tryFact host a db s f = .ok s') :
    Did host a db s (.fact f) s' := by
  obtain ⟨source, found, run⟩ := except_bind_ok.mp h
  obtain ⟨n, counted, run⟩ := except_bind_ok.mp run
  by_cases known : s.selected.contains source.id = true
  · have brings : ∀ g, Atom.fact f = .fact g → Brings db s g [] := by
      rintro g same
      cases same
      exact ⟨source, found, by rw [known, if_pos rfl]⟩
    rw [known] at counted run
    have put : contextCount host a (s.payload.put [] (.fact f)) = .ok n := by
      rw [← counted]
      simp [Payload.put]
    by_cases exceeds : n > a.allowance
    · rw [if_pos exceeds] at run
      cases run
      show Did host a db s _ { s with
        payload := { s.payload with facts := (s.payload.facts ++ [f]).dropLast }
        omitted := s.omitted + 1 }
      rw [List.dropLast_concat]
      exact .left [] n put exceeds
    · rw [if_neg exceeds] at run
      cases run
      have taken := Did.took [] n brings (fun _ same => by cases same) put (Int.not_lt.mp exceeds)
      simpa [Assembly.take, Payload.put] using taken
  · rw [Bool.not_eq_true] at known
    have brings : ∀ g, Atom.fact f = .fact g → Brings db s g [source] := by
      rintro g same
      cases same
      exact ⟨source, found, by rw [known, if_neg Bool.false_ne_true]⟩
    rw [known] at counted run
    have put : contextCount host a (s.payload.put [source] (.fact f)) = .ok n := counted
    by_cases exceeds : n > a.allowance
    · rw [if_pos exceeds] at run
      cases run
      show Did host a db s _ { s with
        payload := { s.payload with
          facts := (s.payload.facts ++ [f]).dropLast
          evidence := (s.payload.evidence ++ [source]).dropLast }
        omitted := s.omitted + 1 }
      rw [List.dropLast_concat, List.dropLast_concat]
      exact .left [source] n put exceeds
    · rw [if_neg exceeds] at run
      cases run
      exact .took [source] n brings (fun _ same => by cases same) put (Int.not_lt.mp exceeds)

theorem tryEvidence_ok {m : MessageRow} (h : tryEvidence host a s m = .ok s') :
    Did host a db s (.evidence m) s' := by
  unfold tryEvidence at h
  by_cases known : s.considered.contains m.id = true
  · rw [if_pos known] at h
    cases h
    exact .seen m known rfl
  · rw [if_neg known] at h
    obtain ⟨n, counted, run⟩ := except_bind_ok.mp h
    have unseen : ∀ e, Atom.evidence m = .evidence e → s.considered.contains e.id = false := by
      rintro e same
      cases same
      simpa using known
    by_cases exceeds : n > a.allowance
    · rw [if_pos exceeds] at run
      cases run
      dsimp only
      rw [List.dropLast_concat]
      exact .left [] n counted exceeds
    · rw [if_neg exceeds] at run
      cases run
      exact .took [] n nofun unseen counted (Int.not_lt.mp exceeds)

/-- Every attempt takes its atom or leaves the payload as it was. -/
theorem attempt_ok {atom : Atom} (lacks : s.payload.Lacks atom)
    (h : attempt host a db s atom = .ok s') : Did host a db s atom s' := by
  cases atom with
  | title t =>
    have field : tryField host a s (fun p => { p with title := some t })
        (fun p => { p with title := none }) = .ok s' := h
    obtain ⟨n, counted, ⟨fits, rfl⟩ | ⟨exceeds, rfl⟩⟩ := tryField_ok field
    · exact .took [] n nofun (fun _ same => by cases same) counted fits
    · have undone : { s.payload with title := none } = s.payload := by rw [← lacks]
      show Did host a db s _ { s with
        payload := { s.payload with title := none }, omitted := s.omitted + 1 }
      rw [undone]
      exact .left [] n counted exceeds
  | snapshot j =>
    have field : tryField host a s (fun p => { p with snapshot := some j })
        (fun p => { p with snapshot := none }) = .ok s' := h
    obtain ⟨n, counted, ⟨fits, rfl⟩ | ⟨exceeds, rfl⟩⟩ := tryField_ok field
    · exact .took [] n nofun (fun _ same => by cases same) counted fits
    · have undone : { s.payload with snapshot := none } = s.payload := by rw [← lacks]
      show Did host a db s _ { s with
        payload := { s.payload with snapshot := none }, omitted := s.omitted + 1 }
      rw [undone]
      exact .left [] n counted exceeds
  | fact f => exact tryFact_ok h
  | evidence m => exact tryEvidence_ok h

/-! ## Runs of attempts -/

/-- The attempts between two assemblies, in order. -/
inductive Trail (host : Host) (a : ContextArgs) (db : Db) : Assembly → List Tried → Assembly → Prop where
  | nil (s : Assembly) : Trail host a db s [] s
  | cons {s next t : Assembly} {atom : Atom} {rest : List Tried} (did : Did host a db s atom next)
      (later : Trail host a db next rest t) : Trail host a db s (⟨s, atom, next⟩ :: rest) t

theorem Trail.append {s mid t : Assembly} {first second : List Tried}
    (one : Trail host a db s first mid) (two : Trail host a db mid second t) :
    Trail host a db s (first ++ second) t := by
  induction one with
  | nil => exact two
  | cons did _ ih => exact .cons did (ih two)

theorem attemptAll_ok {atoms : List Atom} (lacks : ∀ atom ∈ atoms, ∀ p, Payload.Lacks p atom)
    (h : attemptAll host a db s atoms = .ok s') :
    ∃ trail, Trail host a db s trail s' ∧ trail.map (·.atom) = atoms := by
  induction atoms generalizing s with
  | nil =>
    cases h
    exact ⟨[], .nil _, rfl⟩
  | cons atom rest ih =>
    obtain ⟨next, first, later⟩ := except_bind_ok.mp h
    obtain ⟨trail, run, atoms⟩ :=
      ih (fun x member => lacks x (List.mem_cons_of_mem _ member)) later
    refine ⟨⟨s, atom, next⟩ :: trail,
      .cons (attempt_ok (lacks atom List.mem_cons_self _) first) run, ?_⟩
    rw [List.map_cons, atoms]

/-- The title and the snapshot, each set for the first time. -/
theorem attemptAll_fields {t : Text} {j : Json} (title : s.payload.title = none)
    (snapshot : s.payload.snapshot = none)
    (h : attemptAll host a db s [.title t, .snapshot j] = .ok s') :
    ∃ trail, Trail host a db s trail s' ∧ trail.map (·.atom) = [.title t, .snapshot j] := by
  obtain ⟨mid, first, later⟩ := except_bind_ok.mp h
  obtain ⟨_, second, same⟩ := except_bind_ok.mp later
  cases same
  have one : Did host a db s (.title t) mid :=
    attempt_ok (show s.payload.Lacks (.title t) from title) first
  have still : mid.payload.snapshot = none := by
    cases one with
    | took => exact snapshot
    | left =>
      rw [Assembly.leave_payload]
      exact snapshot
    | seen m _ same => cases same
  have two : Did host a db mid (.snapshot j) s' :=
    attempt_ok (show mid.payload.Lacks (.snapshot j) from still) second
  exact ⟨_, .cons one (.cons two (.nil _)), rfl⟩

/-! ## What every assembly keeps -/

/-- An atom as `context` tries it: facts are current and their sources, as other evidence, come from
    the scope. -/
def Atom.Fine (db : Db) (current : Fact → Prop) (inside : MessageRow → Prop) : Atom → Prop
  | .fact f => current f ∧ ∀ source, message f.evidenceId db = .ok source → inside source
  | .evidence m => inside m
  | _ => True

/-- Between two atoms: the payload fits, its evidence is cited in order and selected, its facts have
    their sources. -/
structure Assembled (host : Host) (a : ContextArgs) (current : Fact → Prop)
    (inside : MessageRow → Prop) (s : Assembly) : Prop where
  counted : ∃ n, contextCount host a s.payload = .ok n ∧ n ≤ a.allowance
  citations : s.citations = s.payload.evidence.map cite
  selected : ∀ id, id ∈ s.selected ↔ id ∈ s.payload.evidence.map (·.id)
  distinct : (s.payload.evidence.map (·.id)).Nodup
  facts : ∀ f ∈ s.payload.facts, current f ∧ ∃ m ∈ s.payload.evidence, m.id = f.evidenceId
  evidence : ∀ m ∈ s.payload.evidence, inside m

variable {current : Fact → Prop} {inside : MessageRow → Prop}

theorem message_ok {id : Int} {row : MessageRow} (h : message id db = .ok row) :
    db.message? id = some row ∧ row.id = id := by
  obtain ⟨_, _, found⟩ := except_bind_ok.mp h
  split at found
  · rename_i m exists_
    cases found
    exact ⟨exists_, message?_id exists_⟩
  · cases found

/-- New messages at the end of the evidence. -/
theorem Assembled.extend (h : Assembled host a current inside s) {next : Assembly} {n : Int}
    (news : List MessageRow) (counted : contextCount host a next.payload = .ok n)
    (fits : n ≤ a.allowance) (payload : next.payload.evidence = s.payload.evidence ++ news)
    (cited : next.citations = s.citations ++ news.map cite)
    (picked : ∀ id, id ∈ next.selected ↔ id ∈ news.map (·.id) ∨ id ∈ s.selected)
    (fresh : ∀ m ∈ news, m.id ∉ s.selected) (once : (news.map (·.id)).Nodup)
    (scope : ∀ m ∈ news, inside m)
    (facts : ∀ f ∈ next.payload.facts, f ∈ s.payload.facts ∨
      (current f ∧ ∃ m ∈ next.payload.evidence, m.id = f.evidenceId)) :
    Assembled host a current inside next := by
  refine ⟨⟨n, counted, fits⟩, ?_, ?_, ?_, ?_, ?_⟩
  · rw [cited, payload, List.map_append, h.citations]
  · intro id
    rw [picked, payload, List.map_append, List.mem_append, h.selected, or_comm]
  · rw [payload, List.map_append, List.nodup_append]
    refine ⟨h.distinct, once, ?_⟩
    intro x old y new
    rintro rfl
    obtain ⟨m, member, rfl⟩ := List.mem_map.mp new
    exact fresh m member ((h.selected _).mpr old)
  · intro f member
    rcases facts f member with old | new
    · obtain ⟨good, m, there, id⟩ := h.facts f old
      exact ⟨good, m, by rw [payload]; exact List.mem_append_left _ there, id⟩
    · exact new
  · intro m member
    rw [payload] at member
    rcases List.mem_append.mp member with old | new
    · exact h.evidence m old
    · exact scope m new

/-- One attempt keeps the assembly sound. Evidence is only tried once what is selected has been
    considered. -/
theorem Assembled.did {atom : Atom} (h : Assembled host a current inside s)
    (fine : atom.Fine db current inside)
    (behind : ∀ m, atom = .evidence m → ∀ id ∈ s.selected, id ∈ s.considered)
    (did : Did host a db s atom s') : Assembled host a current inside s' := by
  cases did with
  | left news n counted exceeds =>
    have kept := s.leave_payload atom
    exact ⟨by rw [kept]; exact h.counted, by rw [Assembly.leave_citations, kept]; exact h.citations,
      by rw [Assembly.leave_selected, kept]; exact h.selected, by rw [kept]; exact h.distinct,
      by rw [kept]; exact h.facts, by rw [kept]; exact h.evidence⟩
  | seen m known same => exact h
  | took news n brings unseen counted fits =>
    cases atom with
    | title t => exact ⟨⟨n, counted, fits⟩, h.citations, h.selected, h.distinct, h.facts, h.evidence⟩
    | snapshot j =>
      exact ⟨⟨n, counted, fits⟩, h.citations, h.selected, h.distinct, h.facts, h.evidence⟩
    | fact f =>
      obtain ⟨source, found, rfl⟩ := brings f rfl
      obtain ⟨row, id⟩ := message_ok found
      have there : ∃ m ∈ (s.payload.put (if s.selected.contains source.id then [] else [source])
          (.fact f)).evidence, m.id = f.evidenceId := by
        show ∃ m ∈ s.payload.evidence ++ _, _
        by_cases known : source.id ∈ s.selected
        · obtain ⟨m, member, same⟩ := List.mem_map.mp ((h.selected _).mp known)
          exact ⟨m, List.mem_append_left _ member, same.trans id⟩
        · rw [if_neg (by simpa using known)]
          exact ⟨source, by simp, id⟩
      refine h.extend _ counted fits rfl rfl (fun _ => List.mem_append) ?_ ?_ ?_ ?_
      · intro m member
        split at member
        · exact absurd member List.not_mem_nil
        · rename_i known
          rw [List.mem_singleton.mp member]
          simpa using known
      · split
        · exact List.nodup_nil
        · exact List.nodup_singleton _
      · intro m member
        split at member
        · exact absurd member List.not_mem_nil
        · rw [List.mem_singleton.mp member]
          exact fine.2 source found
      · intro g member
        rcases List.mem_append.mp member with old | new
        · exact Or.inl old
        · rw [List.mem_singleton.mp new]
          exact Or.inr ⟨fine.1, there⟩
    | evidence m =>
      have new : m.id ∉ s.selected := by
        intro old
        have known := unseen m rfl
        rw [List.contains_eq_mem, decide_eq_false_iff_not] at known
        exact known (behind m rfl m.id old)
      refine h.extend [m] counted fits rfl rfl (fun id => ?_) ?_ ?_ ?_ ?_
      · show id ∈ m.id :: s.selected ↔ _
        simp
      · intro x member
        rw [List.mem_singleton.mp member]
        exact new
      · exact List.nodup_singleton _
      · intro x member
        rw [List.mem_singleton.mp member]
        exact fine
      · intro f member
        exact Or.inl member

/-- Title, snapshot and facts. -/
theorem Assembled.trail {trail : List Tried} (h : Assembled host a current inside s)
    (run : Trail host a db s trail s') (fine : ∀ t ∈ trail, t.atom.Fine db current inside)
    (factual : ∀ t ∈ trail, ∀ m, t.atom ≠ .evidence m) : Assembled host a current inside s' := by
  induction run with
  | nil => exact h
  | cons did _ ih =>
    have first := h.did (fine _ List.mem_cons_self)
      (fun m same => absurd same (factual _ List.mem_cons_self m)) did
    exact ih first (fun t member => fine t (List.mem_cons_of_mem _ member))
      fun t member => factual t (List.mem_cons_of_mem _ member)

/-- The candidates, once what is selected counts as considered. -/
theorem Assembled.trail_evidence {trail : List Tried} (h : Assembled host a current inside s)
    (behind : ∀ id ∈ s.selected, id ∈ s.considered) (run : Trail host a db s trail s')
    (fine : ∀ t ∈ trail, ∃ m, t.atom = .evidence m ∧ inside m) :
    Assembled host a current inside s' := by
  induction run with
  | nil => exact h
  | cons did _ ih =>
    obtain ⟨m, same, scope⟩ := fine _ List.mem_cons_self
    dsimp only at same
    subst same
    have first := h.did (show (Atom.evidence m).Fine db current inside from scope)
      (fun _ _ => behind) did
    refine ih first ?_ fun t member => fine t (List.mem_cons_of_mem _ member)
    intro id member
    cases did with
    | took =>
      rcases List.mem_cons.mp member with rfl | old
      · exact List.mem_cons_self
      · exact List.mem_cons_of_mem _ (behind id old)
    | left => exact List.mem_cons_of_mem _ (behind id member)
    | seen => exact behind id member

end Attempt

/-! ## What the readers return -/

section Readers

variable {host : Host} {db : Db}

theorem currentRow_ok {taskId : Int} {key : Text} {row : FactRow}
    (h : currentRow db taskId key = some row) : row.taskId = taskId ∧ db.Latest row := by
  unfold currentRow at h
  generalize own : (db.facts.filter fun f => f.taskId == taskId && f.key == key) = rows at h
  have sorted : (rows.mergeSort fun a b => b.revision ≤ a.revision).Pairwise
      fun a b => decide (b.revision ≤ a.revision) = true := by
    refine List.pairwise_mergeSort ?_ ?_ rows
    · intro a b c first second
      simp only [decide_eq_true_eq] at *
      omega
    · intro a b
      simp only [Bool.or_eq_true, decide_eq_true_eq]
      omega
  have member : row ∈ rows := List.mem_mergeSort.mp (List.mem_of_mem_head? h)
  have top : ∀ g ∈ rows, g.revision ≤ row.revision := by
    intro g there
    have listed : g ∈ rows.mergeSort fun a b => b.revision ≤ a.revision :=
      List.mem_mergeSort.mpr there
    generalize List.mergeSort _ _ = ordered at h sorted listed
    cases ordered with
    | nil => cases h
    | cons first rest =>
      cases h
      rcases List.mem_cons.mp listed with rfl | later
      · exact le_refl _
      · have below := (List.pairwise_cons.mp sorted).1 g later
        simpa using below
  rw [← own] at member top
  obtain ⟨there, own⟩ := List.mem_filter.mp member
  simp only [Bool.and_eq_true, beq_iff_eq] at own
  refine ⟨own.1, there, ?_⟩
  intro g exists_ task key
  refine top g (List.mem_filter.mpr ⟨exists_, ?_⟩)
  rw [task, key, own.1, own.2]
  simp

/-- The current facts of a task. -/
def factsOf (host : Host) (db : Db) (taskId : Int) : List Fact :=
  (factKeys db taskId).filterMap fun key => (currentRow db taskId key).map (factOf host)

theorem currentFacts_ok {taskId : Int} {facts : List Fact}
    (h : currentFacts host taskId db = .ok facts) : facts = factsOf host db taskId := by
  obtain ⟨_, _, same⟩ := except_bind_ok.mp h
  exact (Except.ok.inj same).symm

theorem mem_factsOf {taskId : Int} {f : Fact} (h : f ∈ factsOf host db taskId) :
    ∃ row, row.taskId = taskId ∧ db.Latest row ∧ f = factOf host row := by
  obtain ⟨key, _, found⟩ := List.mem_filterMap.mp h
  obtain ⟨row, current, rfl⟩ := Option.map_eq_some_iff.mp found
  obtain ⟨own, latest⟩ := currentRow_ok current
  exact ⟨row, own, latest, rfl⟩

theorem attemptFacts_ok {a : ContextArgs} {s s' : Assembly} {tids : List Int}
    (h : attemptFacts host a db s tids = .ok s') :
    ∃ trail, Trail host a db s trail s' ∧
      trail.map (·.atom) = (tids.flatMap (factsOf host db)).map .fact := by
  induction tids generalizing s with
  | nil =>
    cases h
    exact ⟨[], .nil _, rfl⟩
  | cons tid rest ih =>
    obtain ⟨facts, read, run⟩ := except_bind_ok.mp h
    obtain ⟨next, first, later⟩ := except_bind_ok.mp run
    have lacks : ∀ atom ∈ facts.map Atom.fact, ∀ p, Payload.Lacks p atom := by
      intro atom member p
      obtain ⟨f, _, rfl⟩ := List.mem_map.mp member
      exact trivial
    obtain ⟨one, trail, atoms⟩ := attemptAll_ok lacks first
    obtain ⟨two, trail', atoms'⟩ := ih later
    refine ⟨one ++ two, trail.append trail', ?_⟩
    rw [List.map_append, atoms, atoms', currentFacts_ok read, List.flatMap_cons, List.map_append]

theorem lineageHop_ok {seen following frontier : List Int} {met : List Int × List Int}
    (h : lineageHop db seen following frontier = .ok met) :
    met = Walk.hop db.parents seen following frontier := by
  induction frontier generalizing seen following with
  | nil =>
    cases h
    rfl
  | cons tid rest ih =>
    obtain ⟨_, _, later⟩ := except_bind_ok.mp h
    exact ih later

theorem lineageHops_ok {root : Int} {n k : Nat} {seen frontier out : List Int}
    (front : Walk.Front db.parents root k seen frontier)
    (h : lineageHops db n seen frontier = .ok out) :
    ∀ id ∈ out, Walk.Within db.parents root (k + n) id := by
  induction n generalizing k seen frontier with
  | zero =>
    cases h
    exact fun id member => (front.met id).mp member
  | succ n ih =>
    obtain ⟨met, first, run⟩ := except_bind_ok.mp h
    have next := front.hop
    rw [← lineageHop_ok first] at next
    split at run
    · cases run
      exact fun id member => ((next.met id).mp member).mono (by omega)
    · intro id member
      have reached := ih next run id member
      rwa [Nat.add_right_comm] at reached

theorem lineage_ok {taskId : Int} {out : List Int} (h : lineage taskId db = .ok out) :
    ∀ id ∈ out, Walk.Within db.parents taskId 3 id := by
  obtain ⟨_, _, run⟩ := except_bind_ok.mp h
  have reached := lineageHops_ok Walk.Front.start run
  rwa [Nat.zero_add] at reached

theorem search_ok {query : Text} {taskIds : Option (List Int)} {limit : Int}
    {out : List MessageRow} (h : search host query taskIds limit db = .ok out) :
    ∀ m ∈ out, m ∈ db.messages ∧ taskIds.all (·.contains m.taskId) = true := by
  obtain ⟨_, _, run⟩ := except_bind_ok.mp h
  obtain ⟨_, _, run⟩ := except_bind_ok.mp run
  dsimp only at run
  split at run
  · cases run
    exact fun _ none_ => absurd none_ List.not_mem_nil
  · obtain ⟨_, _, run⟩ := except_bind_ok.mp run
    cases run
    intro m member
    obtain ⟨hit, inside⟩ := List.mem_filter.mp (List.mem_of_mem_take member)
    obtain ⟨_, _, found⟩ := List.mem_filterMap.mp hit
    exact ⟨List.mem_of_find?_eq_some found, inside⟩

end Readers

/-! ## The package -/

theorem textual_messages (ms : List Message) : Json.Textual (messagesJson ms) := by
  show Json.TextualItems (ms.map Message.toJson)
  induction ms with
  | nil => exact trivial
  | cons m rest ih =>
    have keys : [Text.lit "role", Text.lit "content"].Nodup := by decide
    exact ⟨⟨keys, trivial, trivial, trivial⟩, ih⟩

/-- The messages of a package are read back from its text. -/
theorem asMessages_of_json {p : ContextPackage} {ms : List Message}
    (h : json (messagesJson ms) = .ok p.messagesJson) : p.asMessages = some ms := by
  have text : p.messagesJson = (messagesJson ms).dumps := by
    unfold json at h
    split at h
    · exact (Except.ok.inj h).symm
    · cases h
  have back : ∀ m : Message, Message.ofJson m.toJson = m := fun _ => rfl
  unfold ContextPackage.asMessages
  rw [text, Json.loads_dumps (textual_messages ms)]
  show some ((ms.map Message.toJson).map Message.ofJson) = some ms
  rw [List.map_map]
  congr 1
  exact (List.map_congr_left fun m _ => back m).trans (List.map_id ms)

/-- The package holds the payload, and the payload is what `context` promises. -/
structure Assembles (host : Host) (db : Db) (taskId : Int) (a : ContextArgs) (p : ContextPackage)
    (payload : Payload) : Prop where
  messages : ∃ ms, contextMessages host a payload = .ok ms ∧ p.asMessages = some ms ∧
    a.countFn ms = .ok p.usedUnits
  fits : p.usedUnits ≤ a.budget - a.reserve
  citations : p.citations = payload.evidence.map cite
  distinct : p.citations.Nodup
  facts : ∀ f ∈ payload.facts, (∃ row, db.Latest row ∧
      Walk.Within db.parents taskId 3 row.taskId ∧ f = factOf host row) ∧
    ∃ m ∈ payload.evidence, m.id = f.evidenceId
  evidence : ∀ m ∈ payload.evidence, m ∈ db.messages ∧ InScope db taskId a.scope m.taskId

/-- The atom was taken and the payload with it fits, or the attempt left payload, citations and
    selection as they were. -/
def Tried.Fair (host : Host) (a : ContextArgs) (t : Tried) : Prop :=
  (∃ news n, contextCount host a (t.before.payload.put news t.atom) = .ok n ∧ n ≤ a.allowance ∧
      t.after.payload = t.before.payload.put news t.atom) ∨
    (t.after.payload = t.before.payload ∧ t.after.citations = t.before.citations ∧
      t.after.selected = t.before.selected)

theorem Did.fair {host : Host} {a : ContextArgs} {db : Db} {s s' : Assembly} {atom : Atom}
    (h : Did host a db s atom s') : Tried.Fair host a ⟨s, atom, s'⟩ := by
  cases h with
  | took news n _ _ counted fits =>
    refine Or.inl ⟨news, n, counted, fits, ?_⟩
    cases atom <;> rfl
  | left news n counted exceeds =>
    exact Or.inr ⟨s.leave_payload atom, s.leave_citations atom, s.leave_selected atom⟩
  | seen m known same => exact Or.inr ⟨rfl, rfl, rfl⟩

theorem Trail.fair {host : Host} {a : ContextArgs} {db : Db} {s s' : Assembly} {trail : List Tried}
    (h : Trail host a db s trail s') : ∀ t ∈ trail, t.Fair host a := by
  induction h with
  | nil => exact fun _ none_ => absurd none_ List.not_mem_nil
  | cons did _ ih =>
    intro t member
    rcases List.mem_cons.mp member with rfl | later
    · exact did.fair
    · exact ih t later

/-- A citation names one message. -/
theorem citation_inj {t u i j : Int} (h : citation t i = citation u j) : i = j := by
  have behind : ∀ (n : Int) (rest : Text),
      (Text.ofInt n ++ .char ':' :: rest).dropWhile Text.isNumeral = .char ':' :: rest := by
    intro n rest
    rw [List.dropWhile_append_of_pos fun r member => Text.ofInt_numeral member]
    rfl
  have tails : Text.ofInt t ++ .char ':' :: .char 'M' :: Text.ofInt i =
      Text.ofInt u ++ .char ':' :: .char 'M' :: Text.ofInt j := (List.cons.inj h).2
  have same := congrArg (List.dropWhile Text.isNumeral) tails
  rw [behind, behind] at same
  exact Text.ofInt_inj (List.cons.inj (List.cons.inj same).2).2

theorem contextCount_ok {host : Host} {a : ContextArgs} {payload : Payload} {n : Int}
    (h : contextCount host a payload = .ok n) :
    ∃ ms, contextMessages host a payload = .ok ms ∧ a.countFn ms = .ok n := by
  unfold contextCount at h
  obtain ⟨ms, shown, run⟩ := except_bind_ok.mp h
  obtain ⟨result, counted, run⟩ := except_bind_ok.mp run
  obtain ⟨_, _, same⟩ := except_bind_ok.mp run
  cases same
  exact ⟨ms, shown, counted⟩

theorem checkArgs_scope {a : ContextArgs} {u : Unit} (h : checkArgs a = .ok u) :
    a.scope = Text.lit "task" ∨ a.scope = Text.lit "lineage" ∨ a.scope = Text.lit "all" := by
  unfold checkArgs at h
  obtain ⟨_, _, h⟩ := except_bind_ok.mp h
  obtain ⟨_, _, h⟩ := except_bind_ok.mp h
  obtain ⟨_, _, h⟩ := except_bind_ok.mp h
  obtain ⟨_, _, h⟩ := except_bind_ok.mp h
  obtain ⟨_, _, h⟩ := except_bind_ok.mp h
  have known := check_ok.mp h
  simp only [Bool.or_eq_true, beq_iff_eq] at known
  exact (or_assoc.mp known)

/-- The tasks whose facts are tried are of the lineage and of the scope. -/
theorem contextTasks_ok {db : Db} {taskId : Int} {a : ContextArgs} {tids : List Int}
    (kind : a.scope = Text.lit "task" ∨ a.scope = Text.lit "lineage" ∨ a.scope = Text.lit "all")
    (h : contextTasks a taskId db = .ok tids) :
    ∀ tid ∈ tids, Walk.Within db.parents taskId 3 tid ∧ InScope db taskId a.scope tid := by
  intro tid member
  unfold contextTasks at h
  split at h
  · rename_i alone
    cases h
    rw [List.mem_singleton.mp member]
    exact ⟨Walk.Within.start 3, Or.inr (Or.inl ⟨alone, rfl⟩)⟩
  · rename_i wider
    have near := lineage_ok h tid member
    rcases kind with task | lineage | all
    · exact absurd task wider
    · exact ⟨near, Or.inr (Or.inr ⟨lineage, near⟩)⟩
    · exact ⟨near, Or.inl all⟩

/-- The task itself is in every scope. -/
theorem inScope_self {db : Db} {taskId : Int} {kind : Text}
    (known : kind = Text.lit "task" ∨ kind = Text.lit "lineage" ∨ kind = Text.lit "all") :
    InScope db taskId kind taskId := by
  rcases known with task | lineage | all
  · exact Or.inr (Or.inl ⟨task, rfl⟩)
  · exact Or.inr (Or.inr ⟨lineage, Walk.Within.start 3⟩)
  · exact Or.inl all

/-- The candidates of `context` are messages of the scope. -/
theorem candidates_ok {host : Host} {db : Db} {taskId : Int} {a : ContextArgs} {tids : List Int}
    {found : List MessageRow}
    (kind : a.scope = Text.lit "task" ∨ a.scope = Text.lit "lineage" ∨ a.scope = Text.lit "all")
    (tasks : ∀ tid ∈ tids, InScope db taskId a.scope tid)
    (h : search host a.query (if a.scope = Text.lit "all" then none else some tids)
      a.retrievalLimit db = .ok found) :
    ∀ m ∈ (if a.recent = 0 then found else found ++ recentMessages db taskId a.recent),
      m ∈ db.messages ∧ InScope db taskId a.scope m.taskId := by
  have hit : ∀ m ∈ found, m ∈ db.messages ∧ InScope db taskId a.scope m.taskId := by
    intro m member
    obtain ⟨there, inside⟩ := search_ok h m member
    refine ⟨there, ?_⟩
    by_cases all : a.scope = Text.lit "all"
    · exact Or.inl all
    · rw [if_neg all] at inside
      exact tasks _ (by simpa using inside)
  intro m member
  split at member
  · exact hit m member
  · rcases List.mem_append.mp member with old | recent
    · exact hit m old
    · obtain ⟨there, rfl⟩ := mem_recentMessages recent
      exact ⟨there, inScope_self kind⟩

/-- The stages of a successful `context`. -/
structure Ran (host : Host) (db : Db) (taskId : Int) (a : ContextArgs) (p : ContextPackage)
    (task : TaskRow) (tids : List Int) (found : List MessageRow) (first mid done : Assembly) :
    Prop where
  args : checkArgs a = .ok ()
  tasks : contextTasks a taskId db = .ok tids
  small : ∃ n, contextCount host a { taskId := taskId } = .ok n ∧ n ≤ a.allowance
  fields : attemptAll host a db { payload := { taskId := taskId } }
    [.title task.title, .snapshot (task.snapshot.held host.floatRepr)] = .ok first
  facts : attemptFacts host a db first tids = .ok mid
  hits : search host a.query (if a.scope = Text.lit "all" then none else some tids)
    a.retrievalLimit db = .ok found
  candidates : attemptAll host a db { mid with considered := mid.selected }
    ((if a.recent = 0 then found else found ++ recentMessages db taskId a.recent).map .evidence) =
      .ok done
  shown : ∃ ms, contextMessages host a done.payload = .ok ms ∧
    json (messagesJson ms) = .ok p.messagesJson
  used : contextCount host a done.payload = .ok p.usedUnits
  citations : p.citations = done.citations
  omitted : p.omittedCandidates = done.omitted

theorem context_ran {host : Host} {db : Db} {taskId : Int} {a : ContextArgs} {p : ContextPackage}
    (h : context host taskId a db = .ok p) :
    ∃ task tids found first mid done, Ran host db taskId a p task tids found first mid done := by
  unfold context at h
  obtain ⟨_, args, h⟩ := except_bind_ok.mp h
  obtain ⟨task, _, h⟩ := except_bind_ok.mp h
  obtain ⟨tids, ancestors, h⟩ := except_bind_ok.mp h
  obtain ⟨n, counted, h⟩ := except_bind_ok.mp h
  obtain ⟨_, small, h⟩ := except_bind_ok.mp h
  obtain ⟨withFields, fields, h⟩ := except_bind_ok.mp h
  obtain ⟨mid, facts, h⟩ := except_bind_ok.mp h
  obtain ⟨found, hits, h⟩ := except_bind_ok.mp h
  obtain ⟨done, candidates, h⟩ := except_bind_ok.mp h
  obtain ⟨ms, shown, h⟩ := except_bind_ok.mp h
  obtain ⟨text, encoded, h⟩ := except_bind_ok.mp h
  obtain ⟨used, measured, same⟩ := except_bind_ok.mp h
  cases same
  exact ⟨task, tids, found, withFields, mid, done, args, ancestors,
    ⟨n, counted, by simpa using check_ok.mp small⟩, fields, facts, hits, candidates,
    ⟨ms, shown, encoded⟩, measured, rfl, rfl⟩

/-- `context` packs correctly: the messages it returns are counted as it says and fit, citations
    list the evidence, facts are current, sourced and of the lineage, evidence is of the scope; and
    each atom on the way was taken whole or left no trace in the payload. -/
theorem context_correct {host : Host} {db : Db} (sourced : db.Sourced) {taskId : Int}
    {a : ContextArgs} {p : ContextPackage} (h : context host taskId a db = .ok p) :
    ∃ first mid second done, Trail host a db { payload := { taskId := taskId } } first mid ∧
      Trail host a db { mid with considered := mid.selected } second done ∧
      (∀ t ∈ first ++ second, t.Fair host a) ∧ Assembles host db taskId a p done.payload := by
  obtain ⟨task, tids, found, withFields, mid, done, ran⟩ := context_ran h
  obtain ⟨n, counted, small⟩ := ran.small
  obtain ⟨ms, shown, encoded⟩ := ran.shown
  have kind := checkArgs_scope ran.args
  have tasks := contextTasks_ok kind ran.tasks
  have start : Assembled host a
      (fun f => ∃ row, db.Latest row ∧ Walk.Within db.parents taskId 3 row.taskId ∧ f = factOf host row)
      (fun m => m ∈ db.messages ∧ InScope db taskId a.scope m.taskId)
      { payload := { taskId := taskId } } :=
    ⟨⟨n, counted, small⟩, rfl, fun _ => by simp, List.nodup_nil,
      fun _ none_ => absurd none_ List.not_mem_nil, fun _ none_ => absurd none_ List.not_mem_nil⟩
  obtain ⟨one, fieldTrail, fieldAtoms⟩ := attemptAll_fields rfl rfl ran.fields
  obtain ⟨two, factTrail, factAtoms⟩ := attemptFacts_ok ran.facts
  have firstTrail := fieldTrail.append factTrail
  have firstAtom : ∀ t ∈ one ++ two, (∃ x, t.atom = .title x) ∨ (∃ j, t.atom = .snapshot j) ∨
      ∃ f ∈ tids.flatMap (factsOf host db), t.atom = .fact f := by
    intro t member
    rcases List.mem_append.mp member with field | fact
    · have listed : t.atom ∈ one.map (·.atom) := List.mem_map.mpr ⟨t, field, rfl⟩
      rw [fieldAtoms, List.mem_pair] at listed
      rcases listed with title | snapshot
      · exact Or.inl ⟨_, title⟩
      · exact Or.inr (Or.inl ⟨_, snapshot⟩)
    · have listed : t.atom ∈ two.map (·.atom) := List.mem_map.mpr ⟨t, fact, rfl⟩
      rw [factAtoms] at listed
      obtain ⟨f, there, atom⟩ := List.mem_map.mp listed
      exact Or.inr (Or.inr ⟨f, there, atom.symm⟩)
  have assembled := start.trail firstTrail (by
      intro t member
      rcases firstAtom t member with ⟨x, atom⟩ | ⟨j, atom⟩ | ⟨f, there, atom⟩
      · rw [atom]
        exact trivial
      · rw [atom]
        exact trivial
      · obtain ⟨tid, listed, there⟩ := List.mem_flatMap.mp there
        obtain ⟨row, rfl, latest, rfl⟩ := mem_factsOf there
        obtain ⟨near, inside⟩ := tasks _ listed
        rw [atom]
        refine ⟨⟨row, latest, near, rfl⟩, ?_⟩
        intro source read
        obtain ⟨exists_, _⟩ := message_ok read
        refine ⟨List.mem_of_find?_eq_some exists_, ?_⟩
        rw [sourced row latest.1 source exists_]
        exact inside)
    (by
      intro t member m atom
      rcases firstAtom t member with ⟨x, other⟩ | ⟨j, other⟩ | ⟨f, _, other⟩ <;>
        rw [atom] at other <;> cases other)
  obtain ⟨second, lastTrail, lastAtoms⟩ := attemptAll_ok (by
    intro atom member q
    obtain ⟨m, _, rfl⟩ := List.mem_map.mp member
    exact trivial) ran.candidates
  have finished := Assembled.trail_evidence (s := { mid with considered := mid.selected })
    ⟨assembled.counted, assembled.citations, assembled.selected, assembled.distinct,
      assembled.facts, assembled.evidence⟩ (fun _ member => member) lastTrail (by
      intro t member
      have listed : t.atom ∈ second.map (·.atom) := List.mem_map.mpr ⟨t, member, rfl⟩
      rw [lastAtoms] at listed
      obtain ⟨m, there, atom⟩ := List.mem_map.mp listed
      exact ⟨m, atom.symm, candidates_ok kind (fun tid listed => (tasks tid listed).2) ran.hits m there⟩)
  refine ⟨one ++ two, mid, second, done, firstTrail, lastTrail, ?_, ?_⟩
  · intro t member
    rcases List.mem_append.mp member with early | late
    · exact firstTrail.fair t early
    · exact lastTrail.fair t late
  · obtain ⟨count, again, fits⟩ := finished.counted
    obtain ⟨shown', counts, measuredBy⟩ := contextCount_ok ran.used
    rw [ran.used] at again
    cases again
    rw [shown] at counts
    cases counts
    refine ⟨⟨ms, shown, asMessages_of_json encoded, measuredBy⟩, fits,
      ran.citations.trans finished.citations, ?_, finished.facts, finished.evidence⟩
    rw [ran.citations, finished.citations]
    have ids := finished.distinct
    rw [List.Nodup, List.pairwise_map] at ids ⊢
    exact ids.imp fun apart equal => apart (citation_inj equal)

/-- A task with a message and a fact in a store of its own. -/
def smallStore : Db :=
  { Db.empty with
    tasks := [⟨1, Text.lit "t", .opened, .obj [], 1, .epoch⟩]
    messages := [⟨1, 1, .user, Text.lit "m", .obj [], .epoch⟩]
    facts := [⟨1, 1, Text.lit "k", 1, .int 4, 1, false, .epoch⟩] }

theorem context_correct_small : ∃ p, context plainHost 1 { query := Text.lit "q" } smallStore = .ok p ∧
    ∃ first mid second done,
      Trail plainHost { query := Text.lit "q" } smallStore { payload := { taskId := 1 } } first mid ∧
      Trail plainHost { query := Text.lit "q" } smallStore
        { mid with considered := mid.selected } second done ∧
      (∀ t ∈ first ++ second, t.Fair plainHost { query := Text.lit "q" }) ∧
      Assembles plainHost smallStore 1 { query := Text.lit "q" } p done.payload := by
  obtain ⟨p, run⟩ := exists_ok (x := context plainHost 1 { query := Text.lit "q" } smallStore)
    (by decide +kernel)
  have sourced : smallStore.Sourced := by
    intro f fact m found
    rw [show f = ⟨1, 1, Text.lit "k", 1, .int 4, 1, false, .epoch⟩ from List.mem_singleton.mp fact]
      at found ⊢
    cases found
    rfl
  exact ⟨p, run, context_correct sourced run⟩

end TaskMemory

end Cmpath
