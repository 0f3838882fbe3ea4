import Cmpath.Memory.Resolution
import Cmpath.Router.Memory
import Cmpath.Router.WorkingSet

/-!
# Conflicting references

What the two routers do where a given task, a hint and the identifiers in a query do not denote one
task: they choose none of them. The router over `TaskMemory` takes a given task as authoritative
against a hint.
-/

namespace Cmpath
open Lib Lib.Txn

namespace Router
open TaskMemory (check_ok isWordRune)

/-! ## What a query writes -/

/-- The identifier of a task is written in a text. -/
def Writes (host : Host) (text : Text) (t : Int) : Prop :=
  ∃ d ∈ explicitIds (isWordRune host) text, (decimal d : Int) = t

/-- A task that is given, or whose identifier is written and known. -/
def Denotes (host : Host) (db : Db) (taskId : Option Int) (text : Text) (t : Int) : Prop :=
  taskId = some t ∨ (Writes host text t ∧ (db.task? t).isSome)

section Writes

variable {host : Host} {db : Db} {text : Text} {t u : Int}

theorem mem_explicitTaskIds {ids : List Int} (h : explicitTaskIds host text = .ok ids) :
    t ∈ ids ↔ Writes host text t := by
  unfold explicitTaskIds TaskMemory.explicitTaskIds at h
  dsimp only at h
  split at h
  · cases h
  · cases h
    rw [TaskMemory.mem_fromKeys, List.mem_map]
    exact Iff.rfl

/-- A query with two identifiers resolves to no task. -/
theorem resolve_written {r : TaskMemory.Resolution} (first : Writes host text t)
    (second : Writes host text u) (apart : t ≠ u) (h : TaskMemory.resolve host text db = .ok r) :
    r.status ≠ .resolved := by
  obtain ⟨ids, read, h⟩ := except_bind_ok.mp h
  have mem : ∀ id, id ∈ ids ↔ Writes host text id := fun id => mem_explicitTaskIds read
  split at h
  · cases h
    intro resolved
    cases resolved
  · have some_ : ids.isEmpty = false := by
      rw [List.isEmpty_eq_false_iff]
      exact List.ne_nil_of_mem ((mem t).mpr first)
    simp only [some_, Bool.false_eq_true, if_false, Except.ok.injEq] at h
    subst h
    show (conclude ids).status ≠ .resolved
    intro resolved
    have one : ∃ id, ids = [id] := by
      unfold conclude at resolved
      split at resolved
      · cases resolved
      · exact ⟨_, rfl⟩
      · cases resolved
    obtain ⟨id, rfl⟩ := one
    have isT := List.mem_singleton.mp ((mem t).mpr first)
    have isU := List.mem_singleton.mp ((mem u).mpr second)
    exact apart (isT.trans isU.symm)

/-- Of two tasks that are denoted, a given one and one that is written differ, or two that are
    written. -/
theorem Denotes.apart {taskId : Option Int} (first : Denotes host db taskId text t)
    (second : Denotes host db taskId text u) (apart : t ≠ u) :
    (∃ id v, taskId = some id ∧ Writes host text v ∧ v ≠ id) ∨
      (∃ v w, Writes host text v ∧ Writes host text w ∧ v ≠ w) := by
  rcases first with givenT | ⟨writtenT, _⟩
  · rcases second with givenU | ⟨writtenU, _⟩
    · rw [givenT] at givenU
      exact absurd (Option.some.inj givenU) apart
    · exact .inl ⟨t, u, givenT, writtenU, Ne.symm apart⟩
  · rcases second with givenU | ⟨writtenU, _⟩
    · exact .inl ⟨u, t, givenU, writtenT, apart⟩
    · exact .inr ⟨t, u, writtenT, writtenU, apart⟩

end Writes

/-! ## The router over TaskMemory -/

/-- The conflicts `MemoryRouter.route` refuses. -/
inductive MemoryConflict (host : Host) (db : Db) (a : RouteAsk) : Prop
  | query {t u : Int} (noHint : a.taskHint = none) (first : Denotes host db a.taskId a.query t)
      (second : Denotes host db a.taskId a.query u) (apart : t ≠ u)
  | written {hint : Text} {id t : Int} (hinted : a.taskHint = some hint) (given : a.taskId = some id)
      (other : Writes host hint t) (apart : t ≠ id)
  | several {hint : Text} {r : TaskMemory.Resolution} (hinted : a.taskHint = some hint)
      (notGiven : a.taskId = none) (resolves : TaskMemory.resolve host hint db = .ok r)
      (ambiguous : r.status = .ambiguous)
  | unknown {hint : Text} {r : TaskMemory.Resolution} {t : Int} (hinted : a.taskHint = some hint)
      (notGiven : a.taskId = none) (resolves : TaskMemory.resolve host hint db = .ok r)
      (unresolved : r.status ≠ .resolved) (named : Writes host hint t)

section Memory

variable {host : Host} {router : MemoryRouter} {db : Db} {a : RouteAsk}

theorem givenTask_ok {text : Text} {id : Int} {r : TaskMemory.Resolution}
    (h : givenTask host text id db = .ok r) :
    (r.status = .resolved → r.taskId = some id) ∧
      ∀ t, Writes host text t → t ≠ id → r.status ≠ .resolved := by
  obtain ⟨_, _, h⟩ := except_bind_ok.mp h
  obtain ⟨ids, read, h⟩ := except_bind_ok.mp h
  by_cases other : ids.any (· != id) = true
  · rw [if_pos other] at h
    cases h
    exact ⟨fun resolved => (nomatch resolved), fun _ _ _ resolved => (nomatch resolved)⟩
  · rw [if_neg other] at h
    cases h
    refine ⟨fun _ => rfl, fun t written apart => ?_⟩
    refine absurd (List.any_eq_true.mpr ⟨t, (mem_explicitTaskIds read).mpr written, ?_⟩) other
    simpa using apart

/-- The active task is for queries without an identifier. -/
theorem activeTask_ok {text : Text} {useActive : Bool} {r r' : TaskMemory.Resolution} {t : Int}
    (written : Writes host text t) (h : activeTask host text useActive r db = .ok r') : r' = r := by
  unfold activeTask at h
  by_cases used : (!useActive) = true
  · rw [if_pos used] at h
    exact (Except.ok.inj h).symm
  · rw [if_neg used] at h
    obtain ⟨ids, read, h⟩ := except_bind_ok.mp h
    have some_ : (!ids.isEmpty) = true := by
      rw [Bool.not_eq_true', List.isEmpty_eq_false_iff]
      exact List.ne_nil_of_mem ((mem_explicitTaskIds read).mpr written)
    rw [if_pos some_] at h
    exact (Except.ok.inj h).symm

/-- Without a given task, a resolution that is ambiguous stays, and one that is not resolved does
    where an identifier is written. -/
theorem resolveTask_ok {text : Text} {useActive : Option Bool} {r r' : TaskMemory.Resolution}
    (resolves : TaskMemory.resolve host text db = .ok r)
    (open_ : r.status = .ambiguous ∨ r.status ≠ .resolved ∧ ∃ t, Writes host text t)
    (h : resolveTask host router.config text none useActive db = .ok r') : r'.status ≠ .resolved := by
  obtain ⟨first, same, h⟩ := except_bind_ok.mp h
  rw [resolves] at same
  cases same
  by_cases found : r.status ≠ .notFound
  · rw [if_pos found] at h
    cases h
    rcases open_ with ambiguous | unresolved
    · rw [ambiguous]
      decide
    · exact unresolved.1
  · rw [if_neg found] at h
    rcases open_ with ambiguous | ⟨unresolved, t, written⟩
    · rw [ambiguous] at found
      exact absurd (by decide) found
    · rw [activeTask_ok written h]
      exact unresolved

/-- A decision that is no request for `none` or `pinned` comes from a resolution, or from a query
    that is empty. -/
theorem memoryRoute_ok {d : RouteDecision} {requested : Option MemoryRoute}
    (asked : a.requested = .ok requested)
    (retrieval : requested ≠ some .none ∧ requested ≠ some .pinned)
    (h : memoryRoute host router a db = .ok d) :
    (d.route = .none ∧ d.taskId = none) ∨
      ∃ r, resolveTask host router.config (a.taskHint.getD a.query) a.taskId a.useActive db = .ok r ∧
        r.status = .resolved ∧ d = routeResolved router requested r := by
  unfold memoryRoute at h
  rw [asked] at h
  have routed : routeRetrieval host router a requested db = .ok d := by
    cases requested with
    | none => exact h
    | some route =>
      cases route with
      | none => exact absurd rfl retrieval.1
      | pinned => exact absurd rfl retrieval.2
      | task | lineage | deep => exact h
  unfold routeRetrieval at routed
  split at routed
  · cases routed
    exact .inl ⟨rfl, rfl⟩
  · obtain ⟨r, resolves, last⟩ := except_bind_ok.mp routed
    by_cases resolved : r.status = .resolved
    · rw [if_neg (not_not.mpr resolved)] at last
      cases last
      exact .inr ⟨r, resolves, resolved, rfl⟩
    · rw [if_pos resolved] at last
      cases last
      exact .inl ⟨rfl, rfl⟩

theorem resolveTask_conflict {useActive : Option Bool} {r : TaskMemory.Resolution}
    (conflict : MemoryConflict host db a)
    (h : resolveTask host router.config (a.taskHint.getD a.query) a.taskId useActive db = .ok r) :
    r.status ≠ .resolved := by
  cases conflict with
  | query noHint first second apart =>
    rw [noHint] at h
    change resolveTask host router.config a.query a.taskId useActive db = .ok r at h
    rcases first.apart second apart with ⟨id, v, given, written, other⟩ | ⟨v, w, one, two, other⟩
    · rw [given] at h
      exact (givenTask_ok h).2 v written other
    · cases given : a.taskId with
      | none =>
        rw [given] at h
        obtain ⟨r', resolves, _⟩ := except_bind_ok.mp h
        exact resolveTask_ok resolves (.inr ⟨resolve_written one two other resolves, v, one⟩) h
      | some id =>
        rw [given] at h
        by_cases same : v = id
        · exact (givenTask_ok h).2 w two fun equal => other (same.trans equal.symm)
        · exact (givenTask_ok h).2 v one same
  | written hinted given other apart =>
    rw [hinted, given] at h
    exact (givenTask_ok h).2 _ other apart
  | several hinted notGiven resolves ambiguous =>
    rw [hinted, notGiven] at h
    exact resolveTask_ok resolves (.inl ambiguous) h
  | unknown hinted notGiven resolves unresolved named =>
    rw [hinted, notGiven] at h
    exact resolveTask_ok resolves (.inr ⟨unresolved, _, named⟩) h

/-- A given task is authoritative. -/
theorem memoryRoute_given {d : RouteDecision} {id : Int} (given : a.taskId = some id)
    (h : memoryRoute host router a db = .ok d) : d.taskId = none ∨ d.taskId = some id := by
  obtain ⟨requested, asked, rest⟩ := except_bind_ok.mp h
  by_cases isNone : requested = some .none
  · rw [isNone] at rest
    cases rest
    exact .inl rfl
  by_cases isPinned : requested = some .pinned
  · rw [isPinned] at rest
    obtain ⟨_, _, last⟩ := except_bind_ok.mp rest
    cases last
    exact .inl rfl
  rcases memoryRoute_ok asked ⟨isNone, isPinned⟩ h with ⟨_, none_⟩ | ⟨r, resolves, resolved, rfl⟩
  · exact .inl none_
  · rw [given] at resolves
    unfold routeResolved
    dsimp only
    split
    · exact .inl rfl
    · exact .inr ((givenTask_ok resolves).1 resolved)

/-- What the router over `TaskMemory` keeps, of a decision and of a package. -/
structure MemoryRefuses (host : Host) (router : MemoryRouter) (db : Db) (c : RouteCall) : Prop where
  decision : ∀ d, memoryRoute host router c.ask db = .ok d → d.route = .none ∧ d.taskId = none
  package : ∀ context, memoryRetrieve host router c db = .ok context →
    Abstains (c.counted router.config) context

theorem memory_refuses {c : RouteCall} {requested : Option MemoryRoute}
    (asked : c.ask.requested = .ok requested)
    (retrieval : requested ≠ some .none ∧ requested ≠ some .pinned)
    (conflict : MemoryConflict host db c.ask) : MemoryRefuses host router db c := by
  have decision : ∀ d, memoryRoute host router c.ask db = .ok d →
      d.route = .none ∧ d.taskId = none := by
    intro d h
    rcases memoryRoute_ok asked retrieval h with none_ | ⟨r, resolves, resolved, _⟩
    · exact none_
    · exact absurd resolved (resolveTask_conflict conflict resolves)
  refine ⟨decision, fun context h => ?_⟩
  obtain ⟨_, _, h⟩ := except_bind_ok.mp h
  obtain ⟨_, _, h⟩ := except_bind_ok.mp h
  obtain ⟨d, decided, h⟩ := except_bind_ok.mp h
  obtain ⟨route, task⟩ := decision d decided
  unfold retrieveRouted at h
  dsimp only at h
  rw [if_pos route] at h
  obtain ⟨_, _, empty⟩ := except_bind_ok.mp h
  obtain ⟨route', task', citations, payload⟩ := emptyContext_ok empty
  exact ⟨route'.trans route, task'.trans task, citations, _, payload⟩

end Memory

/-! ## The router of the hooks -/

/-- The conflicts `CodexMemoryRouter.decide` refuses. -/
inductive CodexConflict (host : Host) (db : Db) (a : CodexAsk) : Prop
  | query {t u : Int} (noHint : a.hint = none) (first : Denotes host db a.taskId a.prompt t)
      (second : Denotes host db a.taskId a.prompt u) (apart : t ≠ u)
  | unresolved {hint : Text} {r : TaskMemory.Resolution} (hinted : a.hint = some hint)
      (resolves : TaskMemory.resolve host hint db = .ok r) (notOne : r.status ≠ .resolved)
  | hint {hint : Text} {r : TaskMemory.Resolution} {id : Int} (hinted : a.hint = some hint)
      (resolves : TaskMemory.resolve host hint db = .ok r) (given : a.taskId = some id)
      (apart : r.taskId ≠ some id)

section Codex

variable {host : Host} {router : CodexRouter} {db : Db} {a : CodexAsk}

theorem codexGivenTask_ok {text : Text} {id t : Int} {r : TaskMemory.Resolution}
    (written : Writes host text t) (apart : t ≠ id)
    (h : codexGivenTask host text id db = .ok r) : r.status ≠ .resolved := by
  obtain ⟨known, _, h⟩ := except_bind_ok.mp h
  cases known with
  | none =>
    cases h
    intro resolved
    cases resolved
  | some row =>
    obtain ⟨ids, read, h⟩ := except_bind_ok.mp h
    have other : ids.any (· != id) = true :=
      List.any_eq_true.mpr ⟨t, (mem_explicitTaskIds read).mpr written, by simpa using apart⟩
    rw [if_pos other] at h
    cases h
    intro resolved
    cases resolved

theorem CodexConflict.addressed (conflict : CodexConflict host db a) : a.Addressed host := by
  cases conflict with
  | query noHint first second apart =>
    rcases first.apart second apart with ⟨id, v, given, _⟩ | ⟨v, w, ⟨digits, member, _⟩, _⟩
    · exact .inl (by rw [given]; rfl)
    · exact .inr (.inr (.inl (List.ne_nil_of_mem member)))
  | unresolved hinted => exact .inr (.inl (by rw [hinted]; rfl))
  | hint hinted => exact .inr (.inl (by rw [hinted]; rfl))

theorem codexResolveTask_conflict {r : TaskMemory.Resolution} (conflict : CodexConflict host db a)
    (h : a.resolves host db = .ok r) : r.status ≠ .resolved := by
  unfold CodexAsk.resolves at h
  obtain ⟨_, _, h⟩ := except_bind_ok.mp h
  obtain ⟨_, _, h⟩ := except_bind_ok.mp h
  cases conflict with
  | query noHint first second apart =>
    rw [noHint] at h
    rcases first.apart second apart with ⟨id, v, given, written, other⟩ | ⟨v, w, one, two, other⟩
    · rw [given] at h
      exact codexGivenTask_ok written other h
    · cases given : a.taskId with
      | none =>
        rw [given] at h
        exact resolve_written one two other h
      | some id =>
        rw [given] at h
        by_cases same : v = id
        · exact codexGivenTask_ok two (fun equal => other (same.trans equal.symm)) h
        · exact codexGivenTask_ok one same h
  | unresolved hinted resolves notOne =>
    rw [hinted] at h
    cases given : a.taskId with
    | none =>
      rw [given] at h
      change TaskMemory.resolve host _ db = .ok r at h
      rw [resolves] at h
      cases h
      exact notOne
    | some id =>
      rw [given] at h
      obtain ⟨r', same, h⟩ := except_bind_ok.mp h
      rw [resolves] at same
      cases same
      rw [if_pos notOne] at h
      cases h
      exact notOne
  | @hint hint r₀ id hinted resolves given apart =>
    rw [hinted, given] at h
    obtain ⟨r', same, h⟩ := except_bind_ok.mp h
    rw [resolves] at same
    cases same
    by_cases notOne : r₀.status ≠ .resolved
    · rw [if_pos notOne] at h
      cases h
      exact notOne
    · rw [if_neg notOne, if_pos apart] at h
      cases h
      intro resolved
      cases resolved

/-- What the router of the hooks keeps, of a decision and of a package. -/
structure CodexRefuses (host : Host) (router : CodexRouter) (db : Db) (c : CodexCall) : Prop where
  decision : ∀ d, codexDecide host router c.ask db = .ok d → d.route = .none ∧ d.taskId = none
  package : ∀ context, (codexRetrieve host router c db).2 = .ok context →
    ∃ l, codexOptions router.config c.limits = .ok l ∧ Abstains (c.counted l) context

theorem codex_refuses {c : CodexCall} {requested : Option MemoryRoute}
    (asked : c.ask.requested = .ok requested)
    (retrieval : requested ≠ some .none ∧ requested ≠ some .pinned)
    (conflict : CodexConflict host db c.ask) : CodexRefuses host router db c := by
  have decision : ∀ (bound : CodexRouter) d, codexDecide host bound c.ask db = .ok d →
      d.route = .none ∧ d.taskId = none := by
    intro bound d h
    obtain ⟨r, resolves, refused⟩ := codexDecide_addressed conflict.addressed asked retrieval h
    exact refused (codexResolveTask_conflict conflict resolves)
  refine ⟨decision router, fun context h => ?_⟩
  obtain ⟨l, bound, d, options, _, decided, packed⟩ := codexRetrieve_ok h
  obtain ⟨route, task⟩ := decision bound d decided
  exact ⟨l, options, retrieveDecided_none route task packed⟩

end Codex

/-! ## Both -/

/-- **Conflicting references fail closed.** Where no `none` or `pinned` is asked for, both routers
    choose no task for the conflicts they refuse and retrieve no evidence, and a given task is never
    replaced by another. -/
theorem conflicts_fail_closed (host : Host) (db : Db) :
    (∀ (router : MemoryRouter) (c : RouteCall) (requested : Option MemoryRoute),
      c.ask.requested = .ok requested → requested ≠ some .none → requested ≠ some .pinned →
      MemoryConflict host db c.ask → MemoryRefuses host router db c) ∧
    (∀ (router : CodexRouter) (c : CodexCall) (requested : Option MemoryRoute),
      c.ask.requested = .ok requested → requested ≠ some .none → requested ≠ some .pinned →
      CodexConflict host db c.ask → CodexRefuses host router db c) ∧
    ∀ (router : MemoryRouter) (a : RouteAsk) (id : Int) (d : RouteDecision),
      a.taskId = some id → memoryRoute host router a db = .ok d →
      d.taskId = none ∨ d.taskId = some id :=
  ⟨fun _ _ _ asked notNone notPinned conflict => memory_refuses asked ⟨notNone, notPinned⟩ conflict,
    fun _ _ _ asked notNone notPinned conflict => codex_refuses asked ⟨notNone, notPinned⟩ conflict,
    fun _ _ _ _ given h => memoryRoute_given given h⟩

/-- Two identifiers, and a given task beside a hint of the other. -/
theorem conflicts_fail_closed_named :
    MemoryRefuses asciiHost {} namedDb { ask := { query := Text.lit "T1 or T2" } } ∧
      CodexRefuses asciiHost {} namedDb
        { ask := { taskId := some 1, taskHint := some (Text.lit "beta") } } := by
  obtain ⟨memory, codex, _⟩ := conflicts_fail_closed asciiHost namedDb
  have named : ∀ t : Int, (∃ d ∈ explicitIds (isWordRune asciiHost) (Text.lit "T1 or T2"),
      (decimal d : Int) = t) → (namedDb.task? t).isSome →
      Denotes asciiHost namedDb none (Text.lit "T1 or T2") t := fun t written known =>
    .inr ⟨written, known⟩
  obtain ⟨r, resolves⟩ := exists_ok
    (x := TaskMemory.resolve asciiHost (Text.lit "beta") namedDb) (by decide +kernel)
  have two : (TaskMemory.resolve asciiHost (Text.lit "beta") namedDb).toOption.map (·.taskId) =
      some (some 2) := by decide +kernel
  rw [resolves] at two
  refine ⟨memory _ _ none rfl (by decide) (by decide) (.query rfl (named 1 ?_ ?_) (named 2 ?_ ?_)
    (by decide)), codex _ _ none rfl (by decide) (by decide) (.hint rfl resolves rfl ?_)⟩
  · decide +kernel
  · decide +kernel
  · decide +kernel
  · decide +kernel
  · have task : r.taskId = some 2 := Option.some.inj two
    rw [task]
    decide

/-- A given task against a hint of another. -/
theorem route_given_over_hint :
    (TaskMemory.resolve asciiHost (Text.lit "beta") namedDb).toOption.map (·.taskId) =
        some (some 2) ∧
      (memoryRoute asciiHost {} { query := Text.lit "q", taskId := some 1
                                  taskHint := some (Text.lit "beta") } namedDb).toOption.map
        (fun d => (d.route, d.taskId)) = some (.task, some 1) :=
  ⟨by decide +kernel, by decide +kernel⟩

end Router

end Cmpath
