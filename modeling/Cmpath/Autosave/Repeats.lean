import Cmpath.Autosave.Run

/-!
# Dropped prompts

`save_turn` drops a prompt as a duplicate when the joined key of its session and its turn is in the
seen list, or its digest in the hash list. In every run that is a repeat as long as no other turn that
was saved for the task has the joined key and no other content of the task the digest
(`saveTurn_drops_repeats`); a second prompt without a turn id has the key of the first
(`second_prompt_dropped`).
-/

namespace Cmpath
open Lib Lib.Txn

namespace Autosave

variable {py : Python} {cfg : Config} {clk : Nat → Clock} {db : Db} {id : Int}

/-- The same turn of the same session, with a turn id that is known. -/
structure Turn.Same (u t : Turn) : Prop where
  session : u.sessionId = t.sessionId
  turn : u.turnId = t.turnId
  known : t.turnId ≠ none

/-- A session whose name the joined key shows. -/
structure Turn.Plain (t : Turn) : Prop where
  named : t.sessionId ≠ []
  whole : Rune.char ':' ∉ t.sessionId
  known : t.turnId ≠ none

/-- Between such turns the joined key tells the sessions and the texts of the turn ids apart. -/
theorem Turn.Plain.key_apart {u t : Turn} (hu : u.Plain) (ht : t.Plain) (same : u.key = t.key) :
    u.sessionId = t.sessionId ∧ u.turnId.map TurnId.text = t.turnId.map TurnId.text := by
  have split : ∀ {t : Turn}, t.Plain → ∃ turn, t.turnId.map TurnId.text = some turn ∧
      t.key = t.sessionId ++ Rune.char ':' :: turn := by
    intro t plain
    obtain ⟨turn, known⟩ := Option.ne_none_iff_exists'.mp plain.known
    refine ⟨turn.text, by rw [known]; rfl, ?_⟩
    unfold Turn.key
    rw [known, if_neg (by simpa using plain.named), List.append_assoc]
    rfl
  have cut : ∀ {a b c d : Text}, Rune.char ':' ∉ a → Rune.char ':' ∉ c →
      a ++ Rune.char ':' :: b = c ++ Rune.char ':' :: d → a = c ∧ b = d := by
    intro a
    induction a with
    | nil =>
      intro b c d _ clean equal_
      cases c with
      | nil => exact ⟨rfl, List.tail_eq_of_cons_eq equal_⟩
      | cons r rest => exact absurd (List.cons.inj equal_).1 fun first => clean (first ▸ List.mem_cons_self)
    | cons r rest ih =>
      intro b c d clean clean' equal_
      cases c with
      | nil => exact absurd (List.cons.inj equal_).1.symm fun first => clean (first ▸ List.mem_cons_self)
      | cons r' rest' =>
        obtain ⟨first, later⟩ := List.cons.inj equal_
        obtain ⟨rfl, rfl⟩ := ih (fun member => clean (List.mem_cons_of_mem _ member))
          (fun member => clean' (List.mem_cons_of_mem _ member)) later
        exact ⟨by rw [first], rfl⟩
  obtain ⟨turn, known, key⟩ := split hu
  obtain ⟨turn', known', key'⟩ := split ht
  obtain ⟨session, rfl⟩ := cut hu.whole ht.whole (by rw [← key, ← key', same])
  exact ⟨session, by rw [known, known']⟩

/-- What the call owes the caller: it drops a prompt that the project task stores or a known turn that
    was saved before, and stores any other in one row with its digest and its key. -/
def Turn.DropsRepeats (py : Python) (cfg : Config) (clk : Nat → Clock) (ledger : List (Int × Turn))
    (t : Turn) (db : Db) : Prop :=
  ∃ r, (saveTurn py cfg clk t db).1 = .ok r ∧ ∃ id p,
    prepareText py t.prompt maxMessageChars = some p ∧
      ((r = .duplicate (some id) t.key ∧
        ((∃ m ∈ db.messages, m.taskId = id ∧ m.content = p.content) ∨ ∃ e ∈ ledger, e.2.Same t)) ∨
      ∃ m s, r = .saved id (citation id m.id) p.content.length p.truncated ∧
        (saveTurn py cfg clk t db).2.messages = db.messages ++ [m] ∧
        m.taskId = id ∧ m.role = .user ∧ m.content = p.content ∧
        state py (some id) (saveTurn py cfg clk t db).2 = .ok s ∧
        listed t.key s.seen = true ∧ listed p.digest s.hashes = true)

/-- The turn collides with no other that was saved for its task, its content with no other of the task,
    and what is to be stored can be bound. -/
structure Turn.Clear (py : Python) (ledger : List (Int × Turn)) (db : Db) (t : Turn) (p : Prepared) :
    Prop where
  named : projectTask? py db (projectName t.cwd) = none → ProjectNameable py (projectName t.cwd)
  prepared : prepareText py t.prompt maxMessageChars = some p
  bindable : Bindable p.content (t.source p.truncated)
  spelled : t.key.valid = true
  turns : ∀ task, projectTask? py db (projectName t.cwd) = some task →
    ∀ u, (task.id, u) ∈ ledger → u.key = t.key → u.Same t
  contents : ∀ task, projectTask? py db (projectName t.cwd) = some task →
    ∀ m ∈ db.messages, m.taskId = task.id → contentHash py m.content = p.digest →
      m.content = p.content

/-- A state with one more turn can be bound. -/
theorem State.Spelled.turned {s : State} {key digest : Text} (h : s.Spelled)
    (valid : key.valid = true) (hex : digest.valid = true) : (s.turned cfg key digest).Sound cfg := by
  refine sound_payload.mpr ⟨soundItems_iff.mpr fun j member => ?_,
    soundItems_iff.mpr fun j member => ?_, soundFields_iff.mpr fun f member => ?_⟩
  · rcases List.mem_append.mp (mem_lastOf (mem_lastOf member)) with old | new
    · exact soundItems_iff.mp h.seen j old
    · rw [List.mem_singleton.mp new]
      exact valid
  · rcases List.mem_append.mp (mem_lastOf (mem_lastOf member)) with old | new
    · exact soundItems_iff.mp h.hashes j old
    · rw [List.mem_singleton.mp new]
      exact hex
  · exact soundFields_iff.mp h.cursors f (mem_lastOf member)

/-- What was put last is read back. -/
theorem listed_reread {repr : List Char → List Char} (cap : Int) (items : List Json) (text : Text) :
    listed text (Json.heldItems repr (lastOf cap (lastOf cap (items ++ [.str text])))) = true := by
  obtain ⟨kept, first⟩ := lastOf_concat cap items (.str text)
  obtain ⟨kept', second⟩ := lastOf_concat cap kept (.str text)
  rw [listed_heldItems, first, second, listed_iff]
  exact List.mem_append_right _ List.mem_cons_self

theorem valid_take {text : Text} (h : text.valid = true) (n : Nat) : Text.valid (text.take n) = true := by
  unfold Text.valid at h ⊢
  rw [List.all_eq_true] at h ⊢
  exact fun r member => h r (List.mem_of_mem_take member)

/-- In every run `save_turn` drops only repeats and stores everything else, for each turn that is
    clear. -/
theorem saveTurn_drops_repeats (py : Python) (hex : ∀ text, (py.sha1 text).valid = true)
    {ledger : List (Int × Turn)} {db : Db} (run : Run py ledger db) (cfg : Config)
    (write : cfg.write = true) (clk : Nat → Clock) (t : Turn) (p : Prepared)
    (clear : t.Clear py ledger db p) : t.DropsRepeats py cfg clk ledger db := by
  have inv := run.inv
  have regular := Regular.of_reachable inv.kept.reachable
  rcases project_wet py (clk 2) (projectName t.cwd) regular with
    ⟨_, id, new, mid, project, found⟩ | ⟨unnamed, _⟩
  · have founded := inv.found (atomic_ok.mp project)
    have recorded := founded.recorded id found.here
    have spelled := founded.spelled id found.here
    have read := founded.legible.state found.here
    generalize stateOf py mid id = s at recorded spelled read
    have plan : planTurn py cfg t (some id) mid = if t.seenIn s p then
        .ok (.answer (.duplicate (some id) t.key)) else .ok (.store id s p) := by
      unfold planTurn
      rw [read]
      simp only [bind, Except.bind, clear.prepared, write, if_true]
      rfl
    by_cases seen : t.seenIn s p = true
    · have call : saveTurn py cfg clk t db = (.ok (.duplicate (some id) t.key), mid) := by
        unfold saveTurn
        rw [write, project]
        dsimp only
        rw [plan, if_pos seen]
      refine ⟨_, congrArg Prod.fst call, id, p, clear.prepared, .inl ⟨rfl, ?_⟩⟩
      cases known : projectTask? py db (projectName t.cwd) with
      | none =>
        have fresh := found.fresh known
        rw [read] at fresh
        obtain rfl := Except.ok.inj fresh
        cases seen
      | some task =>
        obtain ⟨rfl, rfl⟩ := found.same task known
        rcases Bool.or_eq_true_iff.mp seen with key | digest
        · obtain ⟨u, saved, same⟩ := recorded.seen _ (listed_iff.mp key)
          exact .inr ⟨_, saved, clear.turns task known u saved (Json.str.inj same).symm⟩
        · obtain ⟨m, stored, own, same⟩ := recorded.hashes _ (listed_iff.mp digest)
          exact .inl ⟨m, stored, own, clear.contents task known m stored own (Json.str.inj same).symm⟩
    · have hexes : p.digest.valid = true := by
        rw [prepared_digest clear.prepared]
        exact valid_take (hex _) 16
      have commits : ∃ r left, commitTurn cfg clk t id s p mid = .ok (r, left) :=
        (commitTurn_total found.regular found.here).mpr
          ⟨clear.bindable, spelled.turned clear.spelled hexes⟩
      obtain ⟨r, left, commit⟩ := commits
      have call : saveTurn py cfg clk t db = (.ok r, left) := by
        unfold saveTurn
        rw [write, project]
        dsimp only
        rw [plan, if_neg seen]
        dsimp only
        rw [atomic_ok.mpr commit]
      obtain ⟨m, rfl, role, content, _, _, committed⟩ := commitTurn_committed founded.kept commit
      have after := (state_ok_iff committed.kept).mpr
        ⟨committed.here.mpr found.here, committed.state rfl⟩
      have rows : left.messages = db.messages ++ [m] := by
        rw [committed.messages, projectTask_messages (atomic_ok.mp project)]
      unfold Turn.DropsRepeats
      rw [call]
      exact ⟨_, rfl, id, p, clear.prepared, .inr ⟨m, _, rfl, rows,
        committed.own m List.mem_cons_self, role, content, after, listed_reread _ _ _,
        listed_reread _ _ _⟩⟩
  · exact absurd clear.named unnamed

/-- The digests of two prompts. -/
def chatPython : Python :=
  { asciiHost with
    sha1 := fun text => Text.lit <|
      if text == Text.lit "hi" then "c22b5f9178342609428d6f51b2c5af4c0bde6a42"
      else if text == Text.lit "yo" then "c41975d1dae1cc69b16ad8892b8c77164e84ca39"
      else "da39a3ee5e6b4b0d3255bfef95601890afd80709"
    str := fun _ => [] }

theorem chatPython_hex (text : Text) : (chatPython.sha1 text).valid = true := Text.valid_lit _

/-- The answer to a repeat. -/
def SaveTurn.dropped : SaveTurn → Bool
  | .duplicate .. => true
  | _ => false

/-- A prompt of one session. -/
def sessionPrompt (prompt : String) (turnId : Option TurnId) : Turn :=
  { sessionId := Text.lit "s", cwd := some (Text.lit "/w"), prompt := Text.lit prompt, turnId := turnId }

theorem chatPython_prepares :
    prepareText chatPython (Text.lit "hi") maxMessageChars =
      some ⟨Text.lit "hi", Text.lit "c22b5f9178342609", false⟩ := by
  have parts : (prepareText chatPython (Text.lit "hi") maxMessageChars).map
      (fun p => (p.content, p.digest, p.truncated)) =
        some (Text.lit "hi", Text.lit "c22b5f9178342609", false) := by decide +kernel
  obtain ⟨⟨content, digest, truncated⟩, made, same⟩ := Option.map_eq_some_iff.mp parts
  cases same
  exact made

/-- The first turn of a session is stored. -/
theorem first_turn_kept :
    (sessionPrompt "hi" (some (.int 1))).DropsRepeats chatPython {} (fun _ => plainClock) [] .empty := by
  have nameable : ProjectNameable chatPython (projectName (some (Text.lit "/w"))) :=
    ⟨by decide +kernel, by decide +kernel⟩
  have unknown : ∀ name, projectTask? chatPython .empty name = none := fun _ => rfl
  exact saveTurn_drops_repeats chatPython chatPython_hex .start {} rfl (fun _ => plainClock) _ _
    { named := fun _ => nameable
      prepared := chatPython_prepares
      bindable := ⟨by decide +kernel, by decide +kernel, by decide +kernel⟩
      spelled := by decide +kernel
      turns := fun _ known => nomatch (unknown _).symm.trans known
      contents := fun _ known => nomatch (unknown _).symm.trans known }

/-- Without a turn id the second prompt of a session is dropped, though it is not stored. -/
theorem second_prompt_dropped :
    ∃ ledger db, Run chatPython ledger db ∧
      ¬ (sessionPrompt "yo" none).DropsRepeats chatPython {} (fun _ => plainClock) ledger db := by
  let first := saveTurn chatPython {} (fun _ => plainClock) (sessionPrompt "hi" none) .empty
  refine ⟨_, first.2, Run.turn .start {} (fun _ => plainClock) (sessionPrompt "hi" none), ?_⟩
  have rows : first.2.messages.map (·.content) = [Text.lit "hi"] := by decide +kernel
  have dropped : (saveTurn chatPython {} (fun _ => plainClock) (sessionPrompt "yo" none)
      first.2).1.toOption.map SaveTurn.dropped = some true := by decide +kernel
  have prepared : (prepareText chatPython (Text.lit "yo") maxMessageChars).map (·.content) =
      some (Text.lit "yo") := by decide +kernel
  rintro ⟨r, answer, id, p, made, ⟨rfl, ⟨m, stored, _, content⟩ | ⟨_, _, same⟩⟩ | ⟨m, s, rfl, _⟩⟩
  · have listed_ : m.content ∈ [Text.lit "hi"] := by
      rw [← rows]
      exact List.mem_map_of_mem stored
    have other : p.content = Text.lit "yo" := by
      have made' : prepareText chatPython (Text.lit "yo") maxMessageChars = some p := made
      rw [made'] at prepared
      exact Option.some.inj prepared
    rw [content, other] at listed_
    exact absurd listed_ (by decide)
  · exact same.known rfl
  · rw [answer] at dropped
    cases dropped

end Autosave

end Cmpath
