import Cmpath.Memory.Assembly
import Cmpath.Router.Codex

/-!
# The working set of an ordinary prompt

What a prompt without an address and without a signal gets from `CodexMemoryRouter.retrieve`, and
what one gets whose address resolves to no task.
-/

namespace Cmpath
open Lib Lib.Txn

namespace Router
open TaskMemory (check_ok cite)

/-! ## Packing the working set -/

section Working

variable {host : Host} {config : CodexConfig} {p : Prompt} {db : Db}

/-- A packed task: it is a task of the store, and its evidence is its own. -/
structure WorkingTask.Sound (db : Db) (config : CodexConfig) (t : WorkingTask) : Prop where
  known : ∃ row, db.task? t.taskId = some row ∧ t.title = row.title
  evidence : ∀ m ∈ t.evidence, m ∈ db.messages ∧ m.taskId = t.taskId
  bounded : (t.evidence.length : Int) ≤ config.maxPinnedEvidence

/-- The tasks packed so far are sound, and what is cited is their evidence and that of the task in
    hand, in order. -/
structure WorkingSet.Sound (db : Db) (config : CodexConfig) (w : WorkingSet)
    (inHand : List MessageRow) : Prop where
  tasks : ∀ t ∈ w.tasks, t.Sound db config
  cited : w.citations = w.tasks.flatMap (fun t => t.evidence.map cite) ++ inHand.map cite
  shown : w.shown = w.citations

theorem mem_transcript {taskId : Int} {m : MessageRow} (h : m ∈ transcript db taskId) :
    m ∈ db.messages ∧ m.taskId = taskId := by
  unfold transcript at h
  rw [List.mem_mergeSort, List.mem_filter] at h
  exact ⟨h.1, by simpa using h.2⟩

theorem mem_workCandidates {ids : List Int} {rows recentRows : List MessageRow}
    (recent : ∀ m ∈ recentRows, m ∈ rows) {m : MessageRow}
    (h : m ∈ workCandidates (requestedItems ids rows recentRows) recentRows) : m ∈ rows := by
  unfold workCandidates at h
  rcases List.mem_append.mp h with asked | newest
  · unfold requestedItems pinnedRows at asked
    obtain ⟨id, _, found⟩ := List.mem_filterMap.mp (List.mem_of_mem_filter asked)
    exact List.mem_of_find?_eq_some found
  · exact recent m (List.mem_of_mem_filter newest)

theorem mem_newest {α : Type} {recent : Int} {l : List α} {a : α} (h : a ∈ newest recent l) :
    a ∈ l := List.mem_of_mem_drop h

/-- What one evidence item does: it is put at the end and cited, or left out. -/
theorem workEvidence_ok {before : WorkingSet} {item : WorkingTask} {m : MessageRow}
    {next : WorkingSet × WorkingTask} (h : workEvidence host config p before item m = .ok next) :
    next.1.tasks = before.tasks ∧
      ((next.1.citations = before.citations ∧ next.1.shown = before.shown ∧ next.2 = item) ∨
        ((item.evidence.length : Int) < config.maxPinnedEvidence ∧
          next.1.citations = before.citations ++ [cite m] ∧
          next.1.shown = before.shown ++ [cite m] ∧
          next.2 = { item with evidence := item.evidence ++ [m] })) := by
  unfold workEvidence at h
  by_cases seen : before.selected.contains m.id = true
  · rw [if_pos seen] at h
    cases h
    exact ⟨rfl, .inl ⟨rfl, rfl, rfl⟩⟩
  rw [if_neg seen] at h
  by_cases full : config.maxPinnedEvidence ≤ item.evidence.length
  · rw [if_pos full] at h
    cases h
    exact ⟨rfl, .inl ⟨rfl, rfl, rfl⟩⟩
  rw [if_neg full] at h
  obtain ⟨fits, _, run⟩ := except_bind_ok.mp h
  cases fits with
  | true =>
    cases run
    exact ⟨rfl, .inr ⟨by omega, rfl, rfl, rfl⟩⟩
  | false =>
    -- what was put is taken back
    cases run
    exact ⟨rfl, .inl ⟨rfl, List.dropLast_concat, by simp⟩⟩

/-- The evidence items of a task, one after the other. -/
theorem workEvidences_ok {rows : List MessageRow} {before : WorkingSet} {item : WorkingTask}
    {done : WorkingSet × WorkingTask} (own : ∀ m ∈ rows, m ∈ db.messages ∧ m.taskId = item.taskId)
    (sound : before.Sound db config item.evidence) (good : item.Sound db config)
    (h : workEvidences host config p before item rows = .ok done) :
    done.1.tasks = before.tasks ∧ done.1.Sound db config done.2.evidence ∧
      done.2.Sound db config ∧ done.2.taskId = item.taskId := by
  induction rows generalizing before item with
  | nil =>
    cases h
    exact ⟨rfl, sound, good, rfl⟩
  | cons m rest ih =>
    obtain ⟨next, first, later⟩ := except_bind_ok.mp h
    obtain ⟨tasks, ⟨cited, shown, same⟩ | ⟨room, cited, shown, put⟩⟩ := workEvidence_ok first
    · have sound' : next.1.Sound db config next.2.evidence :=
        ⟨by rw [tasks]; exact sound.tasks, by rw [cited, tasks, same]; exact sound.cited,
          by rw [shown, cited, sound.shown]⟩
      have own' : ∀ x ∈ rest, x ∈ db.messages ∧ x.taskId = next.2.taskId := by
        rw [same]
        exact fun x member => own x (List.mem_cons_of_mem _ member)
      obtain ⟨all, still, last, task⟩ := ih own' sound' (by rw [same]; exact good) later
      exact ⟨all.trans tasks, still, last, by rw [task, same]⟩
    · have mine := own m List.mem_cons_self
      have good' : next.2.Sound db config := by
        rw [put]
        refine ⟨good.known, fun x member => ?_, ?_⟩
        · rcases List.mem_append.mp member with old | new
          · exact good.evidence x old
          · rw [List.mem_singleton.mp new]
            exact mine
        · show ((item.evidence ++ [m]).length : Int) ≤ _
          rw [List.length_append, List.length_singleton]
          omega
      have sound' : next.1.Sound db config next.2.evidence := by
        refine ⟨by rw [tasks]; exact sound.tasks, ?_, by rw [shown, cited, sound.shown]⟩
        rw [cited, tasks, put, sound.cited]
        simp
      have own' : ∀ x ∈ rest, x ∈ db.messages ∧ x.taskId = next.2.taskId := by
        rw [put]
        exact fun x member => own x (List.mem_cons_of_mem _ member)
      obtain ⟨all, still, last, task⟩ := ih own' sound' good' later
      exact ⟨all.trans tasks, still, last, by rw [task, put]⟩

theorem boundTask_ok {taskId : Int} {row : TaskRow} (h : boundTask taskId db = .ok row) :
    db.task? taskId = some row := by
  obtain ⟨_, _, h⟩ := except_bind_ok.mp h
  obtain ⟨_, _, h⟩ := except_bind_ok.mp h
  obtain ⟨_, _, found⟩ := except_bind_ok.mp h
  split at found
  · rename_i known
    cases found
    exact known
  · cases found

theorem knownTask_ok {taskId : Int} {row : TaskRow} (h : knownTask taskId db = .ok (some row)) :
    db.task? taskId = some row := by
  unfold knownTask at h
  split at h
  · rename_i known
    cases h
    exact boundTask_ok known
  · cases h
  · cases h

/-- One task: it is packed at the end, or left out. -/
theorem workTask_ok {pins : OrderedDict Int (List Int)} {recent taskId : Int} {w next : WorkingSet}
    (sound : w.Sound db config []) (h : workTask host config p pins recent w taskId db = .ok next) :
    next.Sound db config [] ∧ (next.tasks.map (·.taskId) = w.tasks.map (·.taskId) ∨
      next.tasks.map (·.taskId) = w.tasks.map (·.taskId) ++ [taskId]) := by
  have left : ∀ n, WorkingSet.Sound db config { w with omitted := n } [] :=
    fun _ => ⟨sound.tasks, sound.cited, sound.shown⟩
  obtain ⟨known, found, run⟩ := except_bind_ok.mp h
  cases known with
  | none =>
    cases run
    exact ⟨left _, .inl rfl⟩
  | some task =>
    have here := knownTask_ok found
    obtain ⟨fits, _, run⟩ := except_bind_ok.mp run
    cases fits with
    | false =>
      cases run
      exact ⟨left _, .inl rfl⟩
    | true =>
      obtain ⟨done, packed, last⟩ := except_bind_ok.mp run
      cases last
      have id : task.id = taskId := task?_id here
      have own : ∀ m ∈ workCandidates (requestedItems ((pins.get? taskId).getD [])
          (transcript db taskId) (newest recent (transcript db taskId)))
          (newest recent (transcript db taskId)), m ∈ db.messages ∧ m.taskId = task.id := by
        intro m member
        rw [id]
        exact mem_transcript (mem_workCandidates (fun _ => mem_newest) member)
      have start : WorkingTask.Sound db config { taskId := task.id, title := task.title } :=
        ⟨⟨task, by rw [id]; exact here, rfl⟩, fun _ none_ => absurd none_ List.not_mem_nil,
          config.positive.2.2.2.2.2.2.2.1⟩
      obtain ⟨tasks, kept, full, same⟩ := workEvidences_ok own (left _) start packed
      refine ⟨⟨fun t member => ?_, ?_, kept.shown⟩, .inr ?_⟩
      · rcases List.mem_append.mp member with old | new
        · exact kept.tasks t old
        · rw [List.mem_singleton.mp new]
          exact ⟨full.known, full.evidence, full.bounded⟩
      · show done.1.citations = _
        rw [kept.cited]
        simp
      · show (done.1.tasks ++ [{ done.2 with trimmed := true }]).map WorkingTask.taskId = _
        rw [List.map_append, tasks, List.map_singleton, same, id]

/-- The tasks, one after the other: those that are packed keep their order. -/
theorem workTasks_ok {pins : OrderedDict Int (List Int)} {recent : Int} {taskIds : List Int}
    {w done : WorkingSet} (sound : w.Sound db config [])
    (h : workTasks host config p pins recent w taskIds db = .ok done) :
    done.Sound db config [] ∧
      (done.tasks.map (·.taskId)).Sublist (w.tasks.map (·.taskId) ++ taskIds) := by
  induction taskIds generalizing w with
  | nil =>
    cases h
    exact ⟨sound, by rw [List.append_nil]⟩
  | cons taskId rest ih =>
    obtain ⟨next, first, later⟩ := except_bind_ok.mp h
    obtain ⟨sound', same | more⟩ := workTask_ok sound first
    · obtain ⟨last, order⟩ := ih sound' later
      refine ⟨last, order.trans ?_⟩
      rw [same]
      exact (List.Sublist.refl _).append (List.sublist_cons_self _ _)
    · obtain ⟨last, order⟩ := ih sound' later
      refine ⟨last, ?_⟩
      rw [more, List.append_assoc, List.singleton_append] at order
      exact order

end Working

/-! ## Packages -/

section Packages

variable {host : Host} {router : CodexRouter} {db : Db}

/-- The messages of a package are those of a payload, counted within the allowance. -/
structure Carries (p : Prompt) (payload : Json) (context : RoutedContext) : Prop where
  messages : ∃ ms, p.messages payload = .ok ms ∧
    TaskMemory.json (TaskMemory.messagesJson ms) = .ok context.messagesJson
  counted : p.count payload = .ok context.usedUnits
  within : context.usedUnits ≤ p.allowance

/-- A package without evidence. -/
structure Abstains (p : Prompt) (context : RoutedContext) : Prop where
  route : context.route = .none
  task : context.taskId = none
  citations : context.citations = []
  payload : ∃ v : Verdict, Carries p (emptyPayload v) context

/-- A package of the working set: evidence of the session's task and of pinned tasks, within the
    limits, and nothing else. -/
structure OfWorkingSet (host : Host) (db : Db) (router : CodexRouter) (session : Option Int)
    (p : Prompt) (context : RoutedContext) (w : WorkingSet) : Prop where
  payload : Carries p (w.payload host) context
  shown : w.shown = context.citations
  citations : context.citations = w.tasks.flatMap fun t => t.evidence.map cite
  tasks : ∀ t ∈ w.tasks, session = some t.taskId ∨ t.taskId ∈ router.pins.keys
  once : (w.tasks.map (·.taskId)).Nodup
  few : (w.tasks.length : Int) ≤ router.config.maxPinnedTasks
  sound : ∀ t ∈ w.tasks, t.Sound db router.config

theorem emptyContext_ok {p : Prompt} {exceeds : Int → String} {v : Verdict} {context : RoutedContext}
    (h : emptyContext p exceeds v = .ok context) :
    context.route = v.route ∧ context.taskId = v.taskId ∧ context.citations = [] ∧
      Carries p (emptyPayload v) context := by
  obtain ⟨ms, messages, h⟩ := except_bind_ok.mp h
  obtain ⟨used, counted, h⟩ := except_bind_ok.mp h
  obtain ⟨_, within, h⟩ := except_bind_ok.mp h
  obtain ⟨text, spelled, h⟩ := except_bind_ok.mp h
  cases h
  exact ⟨rfl, rfl, rfl, ⟨ms, messages, spelled⟩, counted, by simpa using check_ok.mp within⟩

theorem workingTaskIds_spec (config : CodexConfig) (pins : OrderedDict Int (List Int))
    (current : Option Int) :
    (workingTaskIds config pins current).Nodup ∧
      ((workingTaskIds config pins current).length : Int) ≤ config.maxPinnedTasks ∧
      ∀ id ∈ workingTaskIds config pins current, current = some id ∨ id ∈ pins.keys := by
  unfold workingTaskIds
  refine ⟨List.Nodup.sublist (List.take_sublist _ _) ?_, ?_, fun id member => ?_⟩
  · refine List.nodup_append.mpr ⟨?_, pins.distinct.sublist List.filter_sublist, ?_⟩
    · cases current with
      | none => exact List.nodup_nil
      | some id => exact List.nodup_singleton id
    · intro a mine b pinned
      rintro rfl
      have fresh := (List.mem_filter.mp pinned).2
      simp only [List.contains_eq_mem, decide_eq_true mine, Bool.not_true, Bool.false_eq_true] at fresh
  · have := config.positive.2.2.2.2.2.2.1
    rw [List.length_take]
    omega
  · rcases List.mem_append.mp (List.mem_of_mem_take member) with mine | pinned
    · exact .inl (Option.mem_toList.mp mine)
    · exact .inr (List.mem_of_mem_filter pinned)

theorem pinnedContext_ok {p : Prompt} {d : CodexDecision} {recent : Int} {context : RoutedContext}
    (h : pinnedContext host p router d recent db = .ok context) :
    ∃ w, OfWorkingSet host db router d.sessionTaskId p context w := by
  obtain ⟨_, _, h⟩ := except_bind_ok.mp h
  obtain ⟨_, _, h⟩ := except_bind_ok.mp h
  obtain ⟨w, packed, h⟩ := except_bind_ok.mp h
  obtain ⟨ms, messages, h⟩ := except_bind_ok.mp h
  obtain ⟨used, counted, h⟩ := except_bind_ok.mp h
  obtain ⟨_, within, h⟩ := except_bind_ok.mp h
  obtain ⟨text, spelled, h⟩ := except_bind_ok.mp h
  cases h
  obtain ⟨nodup, few, mine⟩ := workingTaskIds_spec router.config router.pins d.sessionTaskId
  have start : WorkingSet.Sound db router.config {} [] :=
    ⟨fun t none_ => absurd none_ List.not_mem_nil, rfl, rfl⟩
  obtain ⟨sound, order⟩ := workTasks_ok start packed
  rw [show ({} : WorkingSet).tasks.map (·.taskId) = [] from rfl, List.nil_append] at order
  refine ⟨w, ⟨⟨ms, messages, spelled⟩, counted, by simpa using check_ok.mp within⟩,
    sound.shown, ?_, ?_, nodup.sublist order, ?_, sound.tasks⟩
  · show w.citations = _
    rw [sound.cited, List.map_nil, List.append_nil]
  · exact fun t member => mine _ (order.subset (List.mem_map_of_mem member))
  · have := order.length_le
    rw [List.length_map] at this
    omega

end Packages

/-! ## Ordinary prompts -/

/-- A prompt without an identifier and without a signal, with no task, hint or route given. -/
structure CodexAsk.Ordinary (host : Host) (a : CodexAsk) : Prop where
  noTask : a.taskId = none ∧ a.taskHint = none ∧ a.taskTitle = none
  noRoute : a.requestedRoute = none ∧ a.route = none ∧ a.scope = none
  noIdentifier : explicitIds (TaskMemory.isWordRune host) a.prompt = []
  noSignal : (signals host a.prompt).any = false

/-- The task of the session of a prompt: the one given, or the one its session is bound to. -/
def CodexAsk.sessionTask (router : CodexRouter) (a : CodexAsk) : Option Int :=
  a.currentTaskId <|> a.sessionId.bind fun s => router.sessions.get? s.strip

section Ordinary

variable {host : Host} {router : CodexRouter} {db : Db} {a : CodexAsk}

theorem CodexAsk.Ordinary.hint (h : a.Ordinary host) : a.hint = none := by
  unfold CodexAsk.hint
  rw [h.noTask.2.2]
  exact h.noTask.2.1

theorem CodexAsk.Ordinary.requested (h : a.Ordinary host) : a.requested = .ok none := by
  unfold CodexAsk.requested
  rw [h.noRoute.1, h.noRoute.2.1, h.noRoute.2.2]
  rfl

theorem sessionTaskId_ok {s : Text} {found : Option Int} (h : sessionTaskId router s = .ok found) :
    found = router.sessions.get? s.strip := by
  obtain ⟨key, named, h⟩ := except_bind_ok.mp h
  obtain ⟨_, _, same⟩ := except_bind_ok.mp named
  cases same
  cases h
  rfl

theorem sessionOf_ok {bound : Option Int} (h : sessionOf router a = .ok bound) :
    bound = a.sessionTask router := by
  unfold sessionOf at h
  unfold CodexAsk.sessionTask
  cases session : a.sessionId with
  | none =>
    rw [session] at h
    cases h
    cases a.currentTaskId <;> rfl
  | some s =>
    rw [session] at h
    obtain ⟨task, named, same⟩ := except_bind_ok.mp h
    cases same
    rw [sessionTaskId_ok named]
    rfl

/-- The task of the session, or none where there is no such task any more. -/
theorem currentTask_ok {current : Option Int} (h : currentTask router a db = .ok current) :
    current = none ∨ current = a.sessionTask router := by
  obtain ⟨bound, found, h⟩ := except_bind_ok.mp h
  rw [← sessionOf_ok found]
  cases bound with
  | none =>
    cases h
    exact .inl rfl
  | some id =>
    obtain ⟨_, _, h⟩ := except_bind_ok.mp h
    obtain ⟨known, _, h⟩ := except_bind_ok.mp h
    cases h
    cases known with
    | none => exact .inl rfl
    | some row => exact .inr rfl

/-- An ordinary prompt is routed to the working set. -/
theorem codexDecide_ordinary {d : CodexDecision} (ordinary : a.Ordinary host)
    (h : codexDecide host router a db = .ok d) :
    d.route = .pinned ∧ (d.sessionTaskId = none ∨ d.sessionTaskId = a.sessionTask router) := by
  obtain ⟨_, _, h⟩ := except_bind_ok.mp h
  obtain ⟨_, _, h⟩ := except_bind_ok.mp h
  obtain ⟨current, found, h⟩ := except_bind_ok.mp h
  rw [ordinary.requested] at h
  change decideOptedIn host a none current db = .ok d at h
  obtain ⟨explicit, read, h⟩ := except_bind_ok.mp h
  have noId : explicit = [] := by
    unfold explicitTaskIds TaskMemory.explicitTaskIds at read
    rw [ordinary.noIdentifier] at read
    cases read
    rfl
  have out : optedIn a none explicit (signals host a.prompt) = false := by
    unfold optedIn
    rw [ordinary.noTask.1, ordinary.hint, noId, ordinary.noSignal]
    rfl
  dsimp only at h
  rw [out] at h
  cases h
  exact ⟨rfl, currentTask_ok found⟩

end Ordinary

/-! ## Addresses -/

/-- The resolution of the address of a prompt, where it has one. -/
def CodexAsk.resolves (host : Host) (a : CodexAsk) : Query TaskMemory.Resolution :=
  codexResolveTask host (a.hint.getD a.prompt) a.taskId a.hint

/-- A prompt has an address: a task or a hint is given, it has an identifier, or it says so. -/
def CodexAsk.Addressed (host : Host) (a : CodexAsk) : Prop :=
  a.taskId.isSome ∨ a.hint.isSome ∨ explicitIds (TaskMemory.isWordRune host) a.prompt ≠ [] ∨
    (signals host a.prompt).address

section Addressed

variable {host : Host} {router : CodexRouter} {db : Db} {a : CodexAsk}

theorem fromKeys_ne_nil {α : Type} [DecidableEq α] {l : List α} (h : l ≠ []) :
    TaskMemory.fromKeys l ≠ [] := by
  obtain ⟨x, member⟩ := List.exists_mem_of_ne_nil l h
  exact List.ne_nil_of_mem (TaskMemory.mem_fromKeys.mpr member)

theorem addressed_of {explicit : List Int} (h : a.Addressed host)
    (read : explicitTaskIds host a.prompt = .ok explicit) :
    addressed a explicit (signals host a.prompt) = true := by
  unfold addressed
  rcases h with task | hint | ids | signal
  · simp [task]
  · simp [hint]
  · have some_ : explicit ≠ [] := by
      unfold explicitTaskIds TaskMemory.explicitTaskIds at read
      dsimp only at read
      split at read
      · cases read
      · cases read
        refine fromKeys_ne_nil fun none_ => ids ?_
        exact List.map_eq_nil_iff.mp none_
    have : explicit.isEmpty = false := by simpa using some_
    simp [this]
  · simp [signal]

theorem optedIn_of_addressed {explicit : List Int} {s : Signals} {requested : Option MemoryRoute}
    (h : addressed a explicit s = true) : optedIn a requested explicit s = true := by
  unfold addressed at h
  unfold optedIn Signals.any
  simp only [Bool.or_eq_true] at h ⊢
  rcases h with ((task | hint) | ids) | signal
  · exact .inl (.inl (.inl (.inr task)))
  · exact .inl (.inl (.inr hint))
  · exact .inl (.inr ids)
  · exact .inr (.inr signal)

/-- A prompt with an address is resolved, and gets no memory where no task is. -/
theorem codexDecide_addressed {d : CodexDecision} {requested : Option MemoryRoute}
    (addressed_ : a.Addressed host) (asked : a.requested = .ok requested)
    (retrieval : requested ≠ some .none ∧ requested ≠ some .pinned)
    (h : codexDecide host router a db = .ok d) :
    ∃ r, a.resolves host db = .ok r ∧
      (r.status ≠ .resolved → d.route = .none ∧ d.taskId = none) := by
  obtain ⟨_, _, h⟩ := except_bind_ok.mp h
  obtain ⟨_, _, h⟩ := except_bind_ok.mp h
  obtain ⟨current, found, h⟩ := except_bind_ok.mp h
  rw [asked] at h
  have opted : decideOptedIn host a requested current db = .ok d := by
    cases requested with
    | none => exact h
    | some route =>
      cases route with
      | none => exact absurd rfl retrieval.1
      | pinned => exact absurd rfl retrieval.2
      | task | lineage | deep => exact h
  obtain ⟨explicit, read, h⟩ := except_bind_ok.mp opted
  have has := addressed_of addressed_ read
  dsimp only at h
  rw [optedIn_of_addressed has] at h
  simp only [Bool.not_true, Bool.false_eq_true, if_false, has, if_true] at h
  obtain ⟨r, resolves, h⟩ := except_bind_ok.mp h
  refine ⟨r, resolves, fun unresolved => ?_⟩
  rw [if_pos unresolved] at h
  cases h
  exact ⟨rfl, rfl⟩

end Addressed

/-! ## Calls -/

section Calls

variable {host : Host} {router : CodexRouter} {db : Db} {c : CodexCall}

/-- Binding the session of a call leaves the pins, and the session has the task it had. -/
theorem bindCall_ok {bound : CodexRouter} (h : bindCall router c.ask db = .ok bound) :
    bound.config = router.config ∧ bound.pins = router.pins ∧
      c.ask.sessionTask bound = c.ask.sessionTask router := by
  unfold bindCall at h
  unfold CodexAsk.sessionTask
  cases session : c.ask.sessionId with
  | none =>
    rw [session] at h
    cases h
    exact ⟨rfl, rfl, rfl⟩
  | some s =>
    cases current : c.ask.currentTaskId with
    | none =>
      rw [session, current] at h
      cases h
      exact ⟨rfl, rfl, rfl⟩
    | some id =>
      rw [session, current] at h
      obtain ⟨_, _, h⟩ := except_bind_ok.mp h
      obtain ⟨_, _, h⟩ := except_bind_ok.mp h
      obtain ⟨_, _, h⟩ := except_bind_ok.mp h
      cases h
      exact ⟨rfl, rfl, rfl⟩

/-- A call that answers has options, a bound session, a decision and its package. -/
theorem codexRetrieve_ok {context : RoutedContext}
    (h : (codexRetrieve host router c db).2 = .ok context) :
    ∃ l bound d, codexOptions router.config c.limits = .ok l ∧
      bindCall router c.ask db = .ok bound ∧ codexDecide host bound c.ask db = .ok d ∧
      retrieveDecided host bound c l d db = .ok context := by
  unfold codexRetrieve at h
  cases options : codexOptions router.config c.limits with
  | error e =>
    rw [options] at h
    cases h
  | ok l =>
    rw [options] at h
    dsimp only at h
    cases binding : bindCall router c.ask db with
    | error e =>
      rw [binding] at h
      cases h
    | ok bound =>
      rw [binding] at h
      obtain ⟨d, decided, packed⟩ := except_bind_ok.mp h
      exact ⟨l, bound, d, rfl, rfl, decided, packed⟩

/-- The package of the route `none` has no evidence. -/
theorem retrieveDecided_none {bound : CodexRouter} {l : Limits} {d : CodexDecision}
    {context : RoutedContext} (route : d.route = .none) (task : d.taskId = none)
    (h : retrieveDecided host bound c l d db = .ok context) : Abstains (c.counted l) context := by
  unfold retrieveDecided at h
  rw [if_pos route] at h
  obtain ⟨_, _, empty⟩ := except_bind_ok.mp h
  obtain ⟨route', task', citations, payload⟩ := emptyContext_ok empty
  exact ⟨route'.trans route, task'.trans task, citations, _, payload⟩

/-- An ordinary prompt gets its working set, and an address without a task gets nothing. -/
structure Confined (host : Host) (router : CodexRouter) (db : Db) (c : CodexCall)
    (context : RoutedContext) : Prop where
  ordinary : c.ask.Ordinary host → ∃ l w, codexOptions router.config c.limits = .ok l ∧
    OfWorkingSet host db router (c.ask.sessionTask router) (c.counted l) context w
  abstains : ∀ requested r, c.ask.requested = .ok requested →
    requested ≠ some .none → requested ≠ some .pinned → c.ask.Addressed host →
    c.ask.resolves host db = .ok r → r.status ≠ .resolved →
    ∃ l, codexOptions router.config c.limits = .ok l ∧ Abstains (c.counted l) context

theorem retrieve_confined {context : RoutedContext}
    (h : (codexRetrieve host router c db).2 = .ok context) : Confined host router db c context := by
  obtain ⟨l, bound, d, options, binding, decided, packed⟩ := codexRetrieve_ok h
  obtain ⟨config, pins, session⟩ := bindCall_ok binding
  constructor
  · intro ordinary
    obtain ⟨route, task⟩ := codexDecide_ordinary ordinary decided
    unfold retrieveDecided at packed
    rw [route, if_neg (by decide), if_pos rfl] at packed
    obtain ⟨w, working⟩ := pinnedContext_ok packed
    refine ⟨l, w, options, working.payload, working.shown, working.citations, fun t member => ?_, working.once,
      config ▸ working.few, fun t member => config ▸ working.sound t member⟩
    rcases working.tasks t member with mine | pinned
    · left
      rcases task with none_ | same
      · rw [none_] at mine
        cases mine
      · rw [← session, ← same]
        exact mine
    · exact .inr (pins ▸ pinned)
  · intro requested r asked notNone notPinned addressed resolved unresolved
    obtain ⟨r', same, refused⟩ :=
      codexDecide_addressed addressed asked ⟨notNone, notPinned⟩ decided
    rw [resolved] at same
    cases same
    obtain ⟨route, task⟩ := refused unresolved
    exact ⟨l, options, retrieveDecided_none route task packed⟩

/-- Calls leave the store as it is. -/
theorem runCodex_same (host : Host) (ops : List CodexOp) (router : CodexRouter) (db : Db) :
    ∃ last, runCodex host ops router db = .ok (last, db) := by
  induction ops generalizing router with
  | nil => exact ⟨router, rfl⟩
  | cons op rest ih =>
    cases op with
    | decide a => exact ih router
    | retrieve c => exact ih (codexRetrieve host router c db).1

end Calls

/-- **Ordinary prompts stay in the working set.** For every store, pins, session and prompt, what
    `retrieve` answers is confined, and calls of the router do not write. -/
theorem working_set_confined (host : Host) (router : CodexRouter) (db : Db) :
    (∀ c context, (codexRetrieve host router c db).2 = .ok context →
      Confined host router db c context) ∧
      ∀ ops, ∃ last, runCodex host ops router db = .ok (last, db) :=
  ⟨fun _ _ h => retrieve_confined h, fun ops => runCodex_same host ops router db⟩

/-- A prompt in the session of the first task. -/
def plainCall : CodexCall :=
  { ask := { prompt := Text.lit "q", sessionId := some (Text.lit "s"), currentTaskId := some 1 } }

theorem working_set_confined_plain :
    plainCall.ask.Ordinary plainHost ∧
      ∃ context, (codexRetrieve plainHost {} plainCall TaskMemory.smallStore).2 = .ok context ∧
        context.citations = [Text.lit "T1:M1"] ∧
        Confined plainHost {} TaskMemory.smallStore plainCall context := by
  obtain ⟨context, run⟩ := exists_ok
    (x := (codexRetrieve plainHost {} plainCall TaskMemory.smallStore).2) (by decide +kernel)
  have cited : ((codexRetrieve plainHost {} plainCall TaskMemory.smallStore).2.toOption.map
      (·.citations)) = some [Text.lit "T1:M1"] := by decide +kernel
  rw [run] at cited
  exact ⟨⟨⟨rfl, rfl, rfl⟩, ⟨rfl, rfl, rfl⟩, by decide +kernel, by decide +kernel⟩, context, run,
    Option.some.inj cited,
    (working_set_confined plainHost {} TaskMemory.smallStore).1 plainCall context run⟩

end Router

end Cmpath
