import Cmpath.Autosave.Run

/-!
# What calls store again

Any number of turns and passes on one store (`Offers`). What keeps a content from being stored twice is
the filter of each call: the hash list, and on a pass that begins again the wire rows of its path. A
call keeps each content once where its filter knows what the task stores of what the call is offered
(`Once.offer`).
-/

namespace Cmpath
open Lib Lib.Txn

namespace Autosave

variable {py : Python} {cfg : Config} {clk : Nat → Clock} {db left : Db} {id : Int}

/-! ## Each content once -/

/-- The contents of the rows of a task. -/
def contentsOf (db : Db) (id : Int) : List Text :=
  (db.messages.filter (·.taskId == id)).map (·.content)

theorem mem_contentsOf {content : Text} :
    content ∈ contentsOf db id ↔ ∃ m ∈ db.messages, m.taskId = id ∧ m.content = content := by
  simp [contentsOf, and_assoc]

/-- No task has two rows of one content. -/
def Once (db : Db) : Prop := ∀ id, (contentsOf db id).Nodup

theorem Once.same (h : Once db) (messages : left.messages = db.messages) : Once left := by
  unfold Once contentsOf at h ⊢
  rwa [messages]

/-- New rows of a task, of different contents that it does not have. -/
theorem Once.append {new : List MessageRow} (h : Once db) (messages : left.messages = db.messages ++ new)
    (own : ∀ m ∈ new, m.taskId = id) (apart : (new.map (·.content)).Nodup)
    (fresh : ∀ m ∈ new, m.content ∉ contentsOf db id) : Once left := by
  intro other
  have split : contentsOf left other =
      contentsOf db other ++ (new.filter (·.taskId == other)).map (·.content) := by
    unfold contentsOf
    rw [messages, List.filter_append, List.map_append]
  rw [split]
  by_cases mine : other = id
  · subst mine
    have all : new.filter (·.taskId == other) = new :=
      List.filter_eq_self.mpr fun m member => by simpa using own m member
    rw [all, List.nodup_append]
    refine ⟨h other, apart, ?_⟩
    intro a old b added same
    obtain ⟨m, member, rfl⟩ := List.mem_map.mp added
    exact fresh m member (same ▸ old)
  · have none_ : new.filter (·.taskId == other) = [] := by
      rw [List.filter_eq_nil_iff]
      intro m member hit
      have task : m.taskId = other := by simpa using hit
      exact mine (task.symm.trans (own m member))
    rw [none_, List.map_nil, List.append_nil]
    exact h other

/-! ## What a call appends -/

/-- A task of a project that is there, or one that is made for it. -/
inductive Lands (py : Python) (db : Db) (name : Text) (id : Int) (mid : Db) : Prop
  | known {task : TaskRow} (found : projectTask? py db name = some task) (same : id = task.id)
      (still : mid = db)
  | made (unknown : projectTask? py db name = none) (next : id = db.sequence.tasks + 1)

theorem Lands.of_run {clock : Clock} {create new : Bool} {name : Text} {mid : Db}
    (run : projectTaskByName py clock create name db = .ok ((some id, new), mid)) :
    Lands py db name id mid := by
  cases found : projectTask? py db name with
  | some task =>
    rw [project_known found] at run
    cases run
    exact .known found rfl rfl
  | none =>
    cases create with
    | false =>
      rw [project_dry found] at run
      cases run
    | true =>
      obtain ⟨made, same, alone⟩ := project_made found run
      cases same
      exact .made found alone.next

/-- A new task has no row. -/
theorem Lands.fresh {name : Text} {mid : Db} {content : Text} (h : Lands py db name id mid)
    (regular : Regular db) (stored : content ∈ contentsOf db id) :
    ∃ task, projectTask? py db name = some task ∧ id = task.id ∧ mid = db := by
  cases h with
  | known found same still => exact ⟨_, found, same, still⟩
  | made _ next =>
    obtain ⟨m, member, own, _⟩ := mem_contentsOf.mp stored
    have given := regular.owned m member
    omega

/-- `save_turn` appends a row at most, of a prompt that its state does not have. -/
theorem saveTurn_rows (h : Legible py db) (cfg : Config) (clk : Nat → Clock) (t : Turn) :
    (saveTurn py cfg clk t db).2.messages = db.messages ∨
    ∃ id mid s p m, Lands py db (projectName t.cwd) id mid ∧ state py (some id) mid = .ok s ∧
      prepareText py t.prompt maxMessageChars = some p ∧ t.seenIn s p = false ∧
      (saveTurn py cfg clk t db).2.messages = db.messages ++ [m] ∧ m.taskId = id ∧
      m.content = p.content := by
  generalize outcome : saveTurn py cfg clk t db = result
  unfold saveTurn at outcome
  cases project : projectTaskByName py (clk 2) cfg.write (projectName t.cwd) db with
  | error e =>
    rw [atomic_of_error project] at outcome
    subst outcome
    exact .inl rfl
  | ok out =>
    obtain ⟨⟨taskId, new⟩, mid⟩ := out
    have before := projectTask_messages project
    rw [atomic_ok.mpr project] at outcome
    dsimp only at outcome
    cases run : planTurn py cfg t taskId mid with
    | error e =>
      rw [run] at outcome
      subst outcome
      exact .inl before
    | ok plan =>
      rw [run] at outcome
      cases planTurn_planned run with
      | empty | duplicate | dry =>
        subst outcome
        exact .inl before
      | @store id s p read prepared fresh task write =>
        obtain rfl := task
        dsimp only at outcome
        cases commit : commitTurn cfg clk t id s p mid with
        | error e =>
          rw [atomic_of_error commit] at outcome
          subst outcome
          exact .inl before
        | ok done =>
          obtain ⟨r, after⟩ := done
          rw [atomic_ok.mpr commit] at outcome
          subst outcome
          obtain ⟨m, _, _, content, _, _, committed⟩ := commitTurn_committed (h.found project).kept commit
          refine .inr ⟨id, mid, s, p, m, .of_run project, read, prepared, fresh, ?_,
            committed.own m List.mem_cons_self, content⟩
          rw [← before]
          exact committed.messages

/-- A pass appends the rows of its plan at most. -/
theorem ingest_rows (py : Python) (cfg : Config) (clk : Nat → Clock) (t : Transcript) (db : Db) :
    (ingestTranscript py cfg clk t db).2.messages = db.messages ∨
    ∃ f id new mid s start reset done rows, t.file = some f ∧ cfg.write = true ∧
      t.task py cfg clk db = (.ok (some id, new), mid) ∧
      Planned py cfg t f (some id) mid s start reset done ∧
      (ingestTranscript py cfg clk t db).2.messages = db.messages ++ rows ∧
      rows.map (fun m => (m.taskId, m.role, m.content, m.source)) =
        done.rows.map fun r => (id, r.role, r.prepared.content, t.source r) := by
  generalize outcome : ingestTranscript py cfg clk t db = result
  unfold ingestTranscript at outcome
  cases file : t.file with
  | none =>
    rw [file] at outcome
    subst outcome
    exact .inl rfl
  | some f =>
    rw [file] at outcome
    dsimp only at outcome
    cases project : atomic (projectTaskByName py (clk 0) cfg.write t.project) db with
    | mk answer mid =>
      rw [project] at outcome
      cases answer with
      | error e =>
        subst outcome
        rw [atomic_error project]
        exact .inl rfl
      | ok out =>
        have before := projectTask_messages (atomic_ok.mp project)
        dsimp only at outcome
        cases run : planPass py cfg t f out.1 mid with
        | error e =>
          rw [run] at outcome
          subst outcome
          exact .inl before
        | ok plan =>
          rw [run] at outcome
          rcases planPass_ok run with ⟨r, _, _, rfl, _⟩ | ⟨s, start, reset, done, planned,
            ⟨r, rfl, _⟩ | ⟨id, owner, write, rfl⟩⟩
          · subst outcome
            exact .inl before
          · subst outcome
            exact .inl before
          · dsimp only at outcome
            cases commit : commitPass cfg clk t id s f start reset done mid with
            | error e =>
              rw [atomic_of_error commit] at outcome
              subst outcome
              exact .inl before
            | ok done' =>
              obtain ⟨r, after⟩ := done'
              rw [atomic_ok.mpr commit] at outcome
              subst outcome
              obtain ⟨rows, messages, same⟩ := commitPass_appends commit
              obtain ⟨taskId, new⟩ := out
              obtain rfl := owner
              exact .inr ⟨f, id, new, mid, s, start, reset, done, rows, rfl, write, project, planned,
                by rw [messages, before], same⟩

/-! ## What the filters know -/

/-- A prompt that the task of its project stores is in the state of the task. -/
def Turn.Filtered (py : Python) (t : Turn) (db : Db) : Prop :=
  ∀ task s p, projectTask? py db (projectName t.cwd) = some task → state py (some task.id) db = .ok s →
    prepareText py t.prompt maxMessageChars = some p → p.content ∈ contentsOf db task.id →
      t.seenIn s p = true

/-- A pass knows what its task stores of the messages it looks at. -/
def Transcript.Filtered (py : Python) (cfg : Config) (clk : Nat → Clock) (t : Transcript) (db : Db) :
    Prop :=
  ∀ f task start reset, t.file = some f → projectTask? py db t.project = some task →
    t.resume? py cfg clk f db = some (.scan start reset) →
      ∀ (j : Nat) m p, (wireCoalesced py start f.lines).1[j]? = some m →
        Looks (·.row py (t.knows py cfg clk db reset)) t.late (wireCoalesced py start f.lines).1 j →
          m.prepared py = some p → p.content ∈ contentsOf db task.id →
            t.knows py cfg clk db reset p.digest = true

/-- A row of a plan is of a message the pass looks at and does not know. -/
theorem scan_looked {known : Text → Bool} {late : Nat → Bool} {raises : Option Failure} {start : Int}
    {done : Scan} {messages : List WireMessage} {r : Row}
    (h : scan py known late raises 0 ⟨[], start, false⟩ messages = .ok done) (member : r ∈ done.rows) :
    ∃ (j : Nat) (m : WireMessage), messages[j]? = some m ∧ Looks (·.row py known) late messages j ∧
      m.row py known = some r := by
  obtain ⟨k, rows, looked, _⟩ := scan_rows h (by decide : ([] : List Row).length < passCap)
  simp only [List.length_nil, Nat.zero_add] at looked
  rw [rows, List.nil_append] at member
  obtain ⟨m, taken, made⟩ := List.mem_filterMap.mp member
  obtain ⟨j, found⟩ := List.mem_iff_getElem?.mp taken
  rw [List.getElem?_take] at found
  split at found
  · rename_i less
    exact ⟨j, m, found, ⟨fun n le => (looked n (by omega)).1, (looked j less).2⟩, made⟩
  · cases found

/-- A turn whose filter knows what is stored keeps each content once. -/
theorem saveTurn_once {t : Turn} (h : Legible py db) (once : Once db) (filtered : t.Filtered py db) :
    Once (saveTurn py cfg clk t db).2 := by
  rcases saveTurn_rows h cfg clk t with same | ⟨id, mid, s, p, m, lands, read, prepared, fresh, messages, own, content⟩
  · exact once.same same
  · refine once.append messages (by simpa using own) (List.nodup_singleton _) ?_
    intro m' member stored
    obtain rfl := List.mem_singleton.mp member
    obtain ⟨task, found, rfl, rfl⟩ := lands.fresh (Regular.of_reachable h.kept.reachable) stored
    have seen := filtered task s p found read prepared (content ▸ stored)
    rw [fresh] at seen
    cases seen

/-- So does a pass that looks at no two messages of one content. -/
theorem ingest_once {t : Transcript} (h : Legible py db) (once : Once db)
    (distinct : t.Distinct py cfg clk db) (filtered : t.Filtered py cfg clk db) :
    Once (ingestTranscript py cfg clk t db).2 := by
  rcases ingest_rows py cfg clk t db with same |
    ⟨f, id, new, mid, s, start, reset, done, rows, file, write, task, planned, messages, same⟩
  · exact once.same same
  · obtain ⟨begins, scanned⟩ := planned.found task
    have contents : rows.map (·.content) = done.rows.map (·.prepared.content) := by
      have third := congrArg (List.map fun row => row.2.2.1) same
      rwa [List.map_map, List.map_map] at third
    have lands : Lands py db t.project id mid := .of_run (atomic_ok.mp task)
    have own : ∀ m ∈ rows, m.taskId = id := by
      intro m member
      have listed_ := List.mem_map_of_mem (f := fun m => (m.taskId, m.role, m.content, m.source)) member
      rw [same] at listed_
      obtain ⟨r, _, equal_⟩ := List.mem_map.mp listed_
      exact (congrArg Prod.fst equal_).symm
    refine once.append messages own ?_ fun m member stored => ?_
    · rw [contents]
      exact (planned.nodup_iff task write).mpr (distinct f file)
    · obtain ⟨task', found, rfl, rfl⟩ := lands.fresh (Regular.of_reachable h.kept.reachable) stored
      have listed_ : m.content ∈ done.rows.map (·.prepared.content) := by
        rw [← contents]
        exact List.mem_map_of_mem member
      obtain ⟨r, planned_, content⟩ := List.mem_map.mp listed_
      obtain ⟨j, w, at_, looks, made⟩ := scan_looked scanned planned_
      have known := filtered f task' start reset file found begins j w r.prepared at_ looks
        (row_prepared made) (content ▸ stored)
      rw [(row_fresh made).2] at known
      cases known

/-! ## Many calls -/

/-- A call that offers texts. -/
inductive Offer where
  | turn (cfg : Config) (clk : Nat → Clock) (t : Turn)
  | pass (cfg : Config) (clk : Nat → Clock) (t : Transcript)

/-- The store after a call, whether it returns or raises. -/
def Offer.run (py : Python) : Offer → Db → Db
  | .turn cfg clk t, db => (saveTurn py cfg clk t db).2
  | .pass cfg clk t, db => (ingestTranscript py cfg clk t db).2

/-- The stores that calls lead to, each of them allowed where it is made. -/
inductive Offers (py : Python) (allowed : Offer → Db → Prop) (db : Db) : Db → Prop
  | none : Offers py allowed db db
  | more {mid : Db} (run : Offers py allowed db mid) (o : Offer) (ok : allowed o mid) :
      Offers py allowed db (o.run py mid)

/-- The filter of the call knows what is stored of what it is offered, and no two messages a pass looks
    at and does not know have one content. -/
def Offer.Filtered (py : Python) : Offer → Db → Prop
  | .turn _ _ t, db => t.Filtered py db
  | .pass cfg clk t, db => t.Distinct py cfg clk db ∧ t.Filtered py cfg clk db

theorem Legible.offer (h : Legible py db) (o : Offer) : Legible py (o.run py db) := by
  cases o with
  | turn cfg clk t => exact (h.turn cfg clk t).legible
  | pass cfg clk t => exact (h.pass cfg clk t).legible

theorem Once.offer {o : Offer} (once : Once db) (h : Legible py db) (filtered : o.Filtered py db) :
    Once (o.run py db) := by
  cases o with
  | turn => exact saveTurn_once h once filtered
  | pass => exact ingest_once h once filtered.1 filtered.2

end Autosave

end Cmpath
