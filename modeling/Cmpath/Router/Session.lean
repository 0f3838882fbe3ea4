import Cmpath.Journal.Change
import Cmpath.Router.Conflict
import Cmpath.Router.Event

/-!
# Sessions and their tasks

Whether the events of one session are in one task and no task has events of two sessions. The task
of a session is found again by its alias among all titles and aliases, so this holds exactly while
the alias of every session addresses its task alone.
-/

namespace Cmpath
open Lib Lib.Txn

namespace Router
open TaskMemory (speaks)

/-! ## Addresses -/

/-- A text addresses a task: by an identifier it writes, or, where it writes none, by a title or an
    alias it contains. -/
def Addresses (host : Host) (db : Db) (text : Text) (t : Int) : Prop :=
  Writes host text t ∨
    ((∀ id, ¬ Writes host text id) ∧ ∃ row ∈ db.tasks, row.id = t ∧ speaks host text db row = true)

/-- A text addresses this task and no other, and writes no identifier of a task that is not there. -/
structure AddressesOnly (host : Host) (db : Db) (text : Text) (t : Int) : Prop where
  known : ∀ id, Writes host text id → (db.task? id).isSome
  only : ∀ u, Addresses host db text u ↔ u = t

section Addresses

variable {host : Host} {db : Db} {text : Text} {t u : Int}

theorem AddressesOnly.unique (h : AddressesOnly host db text t) (other : AddressesOnly host db text u) :
    u = t := (h.only u).mp ((other.only u).mpr rfl)

theorem conclude_singleton {found : List Int} (nodup : found.Nodup) :
    (conclude found).status = .resolved ∧ (conclude found).taskId = some t ↔
      ∀ u, u ∈ found ↔ u = t := by
  rw [conclude_resolved, singleton_iff nodup]

/-- What `TaskMemory.resolve` picks is what the text addresses alone. -/
theorem resolve_addresses {r : TaskMemory.Resolution} (keys : db.TaskKeys)
    (h : TaskMemory.resolve host text db = .ok r) :
    r.status = .resolved ∧ r.taskId = some t ↔ AddressesOnly host db text t := by
  obtain ⟨ids, read, h⟩ := except_bind_ok.mp h
  have mem : ∀ id, id ∈ ids ↔ Writes host text id := fun id => mem_explicitTaskIds read
  have nodup : ids.Nodup := by
    unfold TaskMemory.explicitTaskIds at read
    dsimp only at read
    split at read
    · cases read
    · cases read
      exact TaskMemory.nodup_fromKeys _
  by_cases lost : (ids.any fun id => (db.task? id).isNone) = true
  · rw [if_pos lost] at h
    cases h
    obtain ⟨id, member, absent⟩ := List.any_eq_true.mp lost
    refine ⟨fun resolved => (nomatch resolved.1), fun only => ?_⟩
    have known := only.known id ((mem id).mp member)
    rw [Option.isNone_iff_eq_none] at absent
    rw [absent] at known
    cases known
  rw [if_neg lost] at h
  have known : ∀ id, Writes host text id → (db.task? id).isSome := by
    intro id written
    by_contra absent
    refine lost (List.any_eq_true.mpr ⟨id, (mem id).mpr written, ?_⟩)
    simpa using absent
  have found : ∀ found : List Int, (∀ u, u ∈ found ↔ Addresses host db text u) →
      ((∀ u, u ∈ found ↔ u = t) ↔ AddressesOnly host db text t) := by
    intro found same
    constructor
    · exact fun only => ⟨known, fun u => (same u).symm.trans (only u)⟩
    · exact fun only u => (same u).trans (only.only u)
  by_cases none_ : ids.isEmpty = true
  · simp only [none_, if_true, Except.ok.injEq] at h
    subst h
    have nothing : ∀ id, ¬ Writes host text id := by
      intro id written
      rw [List.isEmpty_iff.mp none_] at mem
      exact List.not_mem_nil ((mem id).mpr written)
    have keyed : (((TaskMemory.tasks db).filter (speaks host text db)).map (·.id)).Nodup := by
      have sorted : ((TaskMemory.tasks db).map (·.id)).Nodup :=
        ((List.perm_insertionSort _ _).map _).nodup_iff.mpr keys.keyed
      exact sorted.sublist (List.filter_sublist.map _)
    refine (conclude_singleton keyed).trans (found _ fun u => ?_)
    rw [List.mem_map]
    constructor
    · rintro ⟨row, member, rfl⟩
      obtain ⟨inside, spoken⟩ := List.mem_filter.mp member
      exact .inr ⟨nothing, row, (List.mem_insertionSort _).mp inside, rfl, spoken⟩
    · rintro (written | ⟨_, row, inside, rfl, spoken⟩)
      · exact absurd written (nothing u)
      · exact ⟨row, List.mem_filter.mpr ⟨(List.mem_insertionSort _).mpr inside, spoken⟩, rfl⟩
  · simp only [none_, if_false, Except.ok.injEq, Bool.false_eq_true] at h
    subst h
    obtain ⟨some_, there⟩ := List.exists_mem_of_ne_nil ids (by simpa using none_)
    refine (conclude_singleton nodup).trans (found ids fun u => ?_)
    rw [mem]
    constructor
    · exact .inl
    · rintro (written | ⟨nothing, _⟩)
      · exact written
      · exact absurd ((mem some_).mp there) (nothing some_)

end Addresses

/-! ## Events in the store -/

/-- The session of a message that an event has recorded. -/
def hookSession (m : MessageRow) : Option Text :=
  if (m.source.get? (Text.lit "host")).map Json.text = some (Text.lit "codex") then
    (m.source.get? (Text.lit "session_id")).map Json.text
  else none

/-- A task has an event of a session. -/
def HoldsEvent (db : Db) (session : Text) (t : Int) : Prop :=
  ∃ m ∈ db.messages, hookSession m = some session ∧ m.taskId = t

/-- The events of one session are in one task, and no task has events of two sessions. -/
def SessionsApart (db : Db) : Prop :=
  ∀ s t s' t', HoldsEvent db s t → HoldsEvent db s' t' → (s = s' ↔ t = t')

/-- The alias of a session addresses the task of its events alone, and where it has none it does not
    address a task of another session alone. -/
structure AliasSeparates (host : Host) (db : Db) (session : Text) : Prop where
  again : ∀ t, HoldsEvent db session t →
    AddressesOnly host db (EventCall.sessionAlias session) t
  first : (∀ t, ¬ HoldsEvent db session t) → ∀ t s,
    AddressesOnly host db (EventCall.sessionAlias session) t → ¬ HoldsEvent db s t

section Store

variable {host : Host} {db db' : Db}

theorem hookSession_source {c : EventCall} {m : MessageRow} (h : m.source = c.source) :
    hookSession m = some c.session := by
  unfold hookSession
  rw [h]
  rfl

theorem holdsEvent_append {m : MessageRow} {session : Text} (own : hookSession m = some session)
    (messages : db'.messages = db.messages ++ [m]) {s : Text} {t : Int} :
    HoldsEvent db' s t ↔ HoldsEvent db s t ∨ (s = session ∧ t = m.taskId) := by
  unfold HoldsEvent
  rw [messages]
  constructor
  · rintro ⟨x, member, named, task⟩
    rcases List.mem_append.mp member with old | new
    · exact .inl ⟨x, old, named, task⟩
    · rw [List.mem_singleton.mp new] at named task
      rw [own] at named
      exact .inr ⟨(Option.some.inj named).symm, task.symm⟩
  · rintro (⟨x, old, named, task⟩ | ⟨rfl, rfl⟩)
    · exact ⟨x, List.mem_append_left _ old, named, task⟩
    · exact ⟨m, List.mem_append_right _ (List.mem_singleton.mpr rfl), own, rfl⟩

/-- One more event keeps the sessions apart when it is put with its own session's and with no
    other's. -/
theorem sessionsApart_append {m : MessageRow} {session : Text} (apart : SessionsApart db)
    (own : hookSession m = some session) (messages : db'.messages = db.messages ++ [m]) :
    SessionsApart db' ↔ ∀ s t, HoldsEvent db s t → (s = session ↔ t = m.taskId) := by
  have holds := @holdsEvent_append db db' m session own messages
  constructor
  · exact fun after s t held => after s t session m.taskId (holds.mpr (.inl held))
      (holds.mpr (.inr ⟨rfl, rfl⟩))
  · intro mine s t s' t' first second
    rcases holds.mp first with old | ⟨rfl, rfl⟩
    · rcases holds.mp second with old' | ⟨rfl, rfl⟩
      · exact apart s t s' t' old old'
      · exact mine s t old
    · rcases holds.mp second with old' | ⟨rfl, rfl⟩
      · exact ⟨fun same => ((mine s' t' old').mp same.symm).symm,
          fun same => ((mine s' t' old').mpr same.symm).symm⟩
      · exact ⟨fun _ => rfl, fun _ => rfl⟩

theorem SessionsApart.congr (apart : SessionsApart db) (same : db'.messages = db.messages) :
    SessionsApart db' := by
  unfold SessionsApart HoldsEvent
  rw [same]
  exact apart

theorem aliasSeparates_of_task {session : Text} {task : Int} (apart : SessionsApart db)
    (only : AddressesOnly host db (EventCall.sessionAlias session) task) :
    (∀ s t, HoldsEvent db s t → (s = session ↔ t = task)) ↔ AliasSeparates host db session := by
  constructor
  · intro mine
    refine ⟨fun t held => ?_, fun nothing t s addressed held => ?_⟩
    · rw [(mine session t held).mp rfl]
      exact only
    · have own := (mine s t held).mpr (only.unique addressed)
      exact nothing t (own ▸ held)
  · intro separates s t held
    constructor
    · rintro rfl
      exact only.unique (separates.again t held)
    · rintro rfl
      by_contra other
      by_cases some_ : ∃ u, HoldsEvent db session u
      · obtain ⟨u, held'⟩ := some_
        have same : u = t := only.unique (separates.again u held')
        exact other ((apart s t session u held held').mpr same.symm)
      · exact separates.first (fun u held' => some_ ⟨u, held'⟩) t s only held

theorem aliasSeparates_of_new {session : Text} {task : Int}
    (none_ : ∀ t, ¬ AddressesOnly host db (EventCall.sessionAlias session) t)
    (fresh : ∀ s, ¬ HoldsEvent db s task) :
    (∀ s t, HoldsEvent db s t → (s = session ↔ t = task)) ↔ AliasSeparates host db session := by
  constructor
  · intro mine
    refine ⟨fun t held => ?_, fun _ t s addressed => absurd addressed (none_ t)⟩
    have same := (mine session t held).mp rfl
    exact absurd (same ▸ held) (fresh session)
  · intro separates s t held
    constructor
    · rintro rfl
      exact absurd (separates.again t held) (none_ t)
    · rintro rfl
      exact absurd held (fresh s)

end Store

/-! ## One event -/

section Step

variable {host : Host} {clk : EventClock} {router : CodexRouter} {c : EventCall} {db left : Db}

/-- The task of an event: the one the alias addresses alone, or a new one. -/
theorem eventTask_ok {task : Int} (keys : db.TaskKeys)
    (h : eventTask host clk c db = (.ok task, left)) :
    Evolves Write.Silent db left ∧
      (AddressesOnly host db (EventCall.sessionAlias c.session) task ∨
        (∀ t, ¬ AddressesOnly host db (EventCall.sessionAlias c.session) t) ∧
          task = db.sequence.tasks + 1) := by
  unfold eventTask at h
  cases resolved : TaskMemory.resolve host (EventCall.sessionAlias c.session) db with
  | error e =>
    rw [resolved] at h
    cases h
  | ok r =>
    rw [resolved] at h
    dsimp only at h
    cases picked : (if r.status = .resolved then r.taskId else none) with
    | some id =>
      rw [picked] at h
      cases h
      refine ⟨.refl db, .inl ((resolve_addresses keys resolved).mp ?_)⟩
      split at picked
      · exact ⟨‹_›, picked⟩
      · cases picked
    | none =>
      rw [picked] at h
      have made := atomic_ok.mp h
      refine ⟨TaskMemory.keeps_createTask _ _ _ _ _ _ _ _ _ made, .inr ⟨fun t only => ?_, ?_⟩⟩
      · obtain ⟨status, task⟩ := (resolve_addresses keys resolved).mpr only
        rw [if_pos status, task] at picked
        cases picked
      · exact TaskMemory.createTask_id _ made

theorem eventTask_error {e : Failure} (h : eventTask host clk c db = (.error e, left)) :
    left = db := by
  unfold eventTask at h
  cases resolved : TaskMemory.resolve host (EventCall.sessionAlias c.session) db with
  | error e =>
    rw [resolved] at h
    cases h
    rfl
  | ok r =>
    rw [resolved] at h
    dsimp only at h
    cases picked : (if r.status = .resolved then r.taskId else none) with
    | some id =>
      rw [picked] at h
      cases h
    | none =>
      rw [picked] at h
      exact atomic_error h

theorem eventAppend_spec {task : Int} {routed : Option RoutedContext} :
    (∃ e, eventAppend clk c task routed db = (.error e, db)) ∨
      ∃ answer db' m, eventAppend clk c task routed db = (.ok answer, db') ∧
        Evolves Write.Any db db' ∧ db'.messages = db.messages ++ [m] ∧ m.taskId = task ∧
        hookSession m = some c.session := by
  unfold eventAppend
  cases run : atomic (TaskMemory.append clk.appended task c.role c.content c.source) db with
  | mk result after =>
    cases result with
    | error e =>
      rw [atomic_error run]
      exact .inl ⟨e, rfl⟩
    | ok id =>
      have done := atomic_ok.mp run
      obtain ⟨m, messages, _, own, source, _⟩ := TaskMemory.append_ok _ done
      have evolves : Evolves Write.Any db after :=
        TaskMemory.keeps_append _ (fun _ => trivial) (fun _ _ _ => trivial) _ _ _ _ _ _ _ done
      exact .inr ⟨_, after, m, rfl, evolves, messages, own, hookSession_source source⟩

/-- What recording an event in a task leaves: the store as it was, or one more message. -/
theorem eventRecord_spec {task : Int} :
    (∃ e other, eventRecord host clk router c task db = (.error e, other, db)) ∨
      ∃ answer other db' m, eventRecord host clk router c task db = (.ok answer, other, db') ∧
        Evolves Write.Any db db' ∧ db'.messages = db.messages ++ [m] ∧ m.taskId = task ∧
        hookSession m = some c.session := by
  unfold eventRecord
  cases binding : bindSession router c.session task db with
  | error e => exact .inl ⟨e, router, rfl⟩
  | ok bound =>
    dsimp only
    cases routing : eventRoute host bound c task db with
    | mk other result =>
      cases result with
      | error e => exact .inl ⟨e, other, rfl⟩
      | ok routed =>
        rcases @eventAppend_spec clk c db task routed with ⟨e, run⟩ | ⟨answer, db', m, run, rest⟩
        · dsimp only
          rw [run]
          exact .inl ⟨e, other, rfl⟩
        · dsimp only
          rw [run]
          exact .inr ⟨answer, other, db', m, rfl, rest⟩

/-- An event is recorded. -/
def Recorded (host : Host) (clk : EventClock) (c : EventCall) (s : Server) : Prop :=
  (codexEvent host clk s.1 c s.2).1.toOption.isSome = true

/-- What one event leaves: the messages as they were, or one more in the task of the session. -/
theorem codexEvent_spec (keys : db.TaskKeys) (owned : db.Owned) :
    ((codexEvent host clk router c db).2.2.TaskKeys ∧ (codexEvent host clk router c db).2.2.Owned) ∧
      ((¬ Recorded host clk c (router, db) ∧
          (codexEvent host clk router c db).2.2.messages = db.messages) ∨
        Recorded host clk c (router, db) ∧
          ∃ m, (codexEvent host clk router c db).2.2.messages = db.messages ++ [m] ∧
            hookSession m = some c.session ∧
            (AddressesOnly host db (EventCall.sessionAlias c.session) m.taskId ∨
              (∀ t, ¬ AddressesOnly host db (EventCall.sessionAlias c.session) t) ∧
                m.taskId = db.sequence.tasks + 1)) := by
  unfold Recorded codexEvent
  by_cases bad : (c.name.isEmpty || c.session.isEmpty) = true
  · rw [if_pos bad]
    exact ⟨⟨keys, owned⟩, .inl ⟨Bool.false_ne_true, rfl⟩⟩
  rw [if_neg bad]
  cases task : eventTask host clk c db with
  | mk result mid =>
    cases result with
    | error e =>
      rw [eventTask_error task]
      exact ⟨⟨keys, owned⟩, .inl ⟨Bool.false_ne_true, rfl⟩⟩
    | ok id =>
      obtain ⟨evolves, whose⟩ := eventTask_ok keys task
      obtain ⟨keys', owned'⟩ := evolves.owned keys owned
      have same := evolves.silent_messages
      rcases @eventRecord_spec host clk router c mid id with
        ⟨e, other, run⟩ | ⟨answer, other, db', m, run, later, messages, own, session⟩
      · dsimp only
        rw [run]
        exact ⟨⟨keys', owned'⟩, .inl ⟨Bool.false_ne_true, same⟩⟩
      · dsimp only
        rw [run]
        exact ⟨later.owned keys' owned', .inr ⟨rfl, m, messages.trans (by rw [same]), session,
          own ▸ whose⟩⟩

/-- One recorded event keeps the sessions apart exactly when its alias separates them. -/
theorem codexEvent_apart (keys : db.TaskKeys) (owned : db.Owned) (apart : SessionsApart db) :
    SessionsApart (codexEvent host clk router c db).2.2 ↔
      (Recorded host clk c (router, db) → AliasSeparates host db c.session) := by
  obtain ⟨_, ⟨not, same⟩ | ⟨recorded, m, messages, session, whose⟩⟩ :=
    @codexEvent_spec host clk router c db keys owned
  · exact ⟨fun _ recorded => absurd recorded not, fun _ => apart.congr same⟩
  · rw [sessionsApart_append apart session messages]
    have exact_ : (∀ s t, HoldsEvent db s t → (s = c.session ↔ t = m.taskId)) ↔
        AliasSeparates host db c.session := by
      rcases whose with only | ⟨none_, new⟩
      · exact aliasSeparates_of_task apart only
      · refine aliasSeparates_of_new none_ fun s held => ?_
        obtain ⟨x, member, _, task⟩ := held
        have := owned x member
        omega
    rw [exact_]
    exact ⟨fun separates _ => separates, fun separates => separates recorded⟩

end Step

/-! ## Runs -/

/-- **Sessions are isolated exactly while their aliases separate them.** From a store whose sessions
    are apart, they are apart in every state of a run of events if and only if, before each event
    that is recorded, the alias of its session separates it from the others. -/
theorem sessions_apart_iff {host : Host} {db : Db} (reachable : Reachable host db)
    (apart : SessionsApart db) (router : CodexRouter) (calls : List (EventClock × EventCall)) :
    (∀ done rest, calls = done ++ rest → SessionsApart (runHooks host (router, db) done).2) ↔
      ∀ done clk c rest, calls = done ++ (clk, c) :: rest →
        Recorded host clk c (runHooks host (router, db) done) →
        AliasSeparates host (runHooks host (router, db) done).2 c.session := by
  have keys := reachable.taskKeys
  have owned := reachable.owned
  clear reachable
  induction calls generalizing router db with
  | nil =>
    refine ⟨fun _ done clk c rest none_ => ?_, fun _ done rest none_ => ?_⟩
    · simp at none_
    · rw [(List.append_eq_nil_iff.mp none_.symm).1]
      exact apart
  | cons call later ih =>
    obtain ⟨clk, c⟩ := call
    have step := @codexEvent_apart host clk router c db keys owned apart
    obtain ⟨keys', owned'⟩ := (@codexEvent_spec host clk router c db keys owned).1
    constructor
    · intro every
      have next := every [(clk, c)] later rfl
      have rest := (ih next (codexEvent host clk router c db).2.1 keys' owned').mp
        fun done rest split => every ((clk, c) :: done) rest (by rw [split, List.cons_append])
      intro done clk' c' last split
      cases done with
      | nil =>
        cases split
        exact step.mp next
      | cons head done =>
        rw [List.cons_append] at split
        cases split
        exact rest done clk' c' last rfl
    · intro separate
      have next := step.mpr fun recorded => separate [] clk c later rfl recorded
      have rest := (ih next (codexEvent host clk router c db).2.1 keys' owned').mpr
        fun done clk' c' last split recorded =>
          separate ((clk, c) :: done) clk' c' last (by rw [split, List.cons_append]) recorded
      intro done last split
      cases done with
      | nil => exact apart
      | cons head done =>
        rw [List.cons_append] at split
        cases split
        exact rest done last rfl

theorem sessionsApart_empty : SessionsApart .empty := by
  rintro s t s' t' ⟨m, none_, _⟩
  exact absurd none_ List.not_mem_nil

/-- Two sessions, the name of one of which goes on from that of the other. -/
def sharedCalls : List (EventClock × EventCall) :=
  [(⟨plainClock, plainClock⟩, { event := Text.lit "Stop", sessionId := Text.lit "a" }),
    (⟨plainClock, plainClock⟩, { event := Text.lit "Stop", sessionId := Text.lit "a-b" })]

theorem sessions_apart_iff_shared :
    (∀ done rest, sharedCalls = done ++ rest →
      SessionsApart (runHooks asciiHost ({}, .empty) done).2) ↔
      ∀ done clk c rest, sharedCalls = done ++ (clk, c) :: rest →
        Recorded asciiHost clk c (runHooks asciiHost ({}, .empty) done) →
        AliasSeparates asciiHost (runHooks asciiHost ({}, .empty) done).2 c.session :=
  sessions_apart_iff ⟨[], rfl⟩ sessionsApart_empty {} sharedCalls

/-- Their events are in one task. -/
theorem sessions_shared :
    Reachable asciiHost .empty ∧ SessionsApart .empty ∧
      ¬ SessionsApart (runHooks asciiHost ({}, .empty) sharedCalls).2 := by
  refine ⟨⟨[], rfl⟩, sessionsApart_empty, fun apart => ?_⟩
  have first : ∃ m ∈ (runHooks asciiHost ({}, .empty) sharedCalls).2.messages,
      hookSession m = some (Text.lit "a") ∧ m.taskId = 1 := by decide +kernel
  have second : ∃ m ∈ (runHooks asciiHost ({}, .empty) sharedCalls).2.messages,
      hookSession m = some (Text.lit "a-b") ∧ m.taskId = 1 := by decide +kernel
  exact absurd ((apart _ _ _ _ first second).mpr rfl) (by decide)

end Router

end Cmpath
