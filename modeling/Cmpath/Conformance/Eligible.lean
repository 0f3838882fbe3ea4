import Cmpath.Conformance.Reference
import Cmpath.Journal.Facts

/-!
# Eligibility in the reference adapter

A turn of `LocalAdapter` is eligible while the epoch it captured is the current one of its task.
Every append to the task raises the epoch (`Still`), so a turn that stays eligible saw none, as long
as a result of its own is recorded only while the epoch is current. `finish_tool` does not ask: it
captures the current epoch anew, with whatever was appended before.
-/

namespace Cmpath.Conformance
open Lib Lib.Proc

/-! ## The memory under the adapter -/

/-- A write that adds no message and takes nothing away. -/
def Wordless : Write → Prop
  | .insertMessage _ => False
  | w => w.Sparing

theorem Wordless.sparing {w : Write} (h : Wordless w) : w.Sparing := by
  cases w <;> first | exact h.elim | trivial

theorem messages_of_wordless {a b : Db} (h : Evolves Wordless a b) : b.messages = a.messages :=
  h.rel (R := fun a b => b.messages = a.messages) (fun _ => rfl)
    (fun _ _ _ first second => second.trans first) fun w db kind _ => by
      cases w with
      | deleteDependencies | deleteAliases =>
        exact (congrArg Tables.messages (Write.touchAll_tables _ _).1).trans rfl
      | insertMessage | replaceMessage | deleteMessages | deleteTasks | deleteFacts => exact kind.elim
      | _ => rfl

/-- What the writes of the adapter keep of its memory: task identifiers are given once, upwards. -/
structure Moves (a b : Db) : Prop where
  keys : a.TaskKeys → b.TaskKeys
  sequence : a.sequence.tasks ≤ b.sequence.tasks

theorem Moves.of_sparing {a b : Db} (h : Evolves Write.Sparing a b) : Moves a b :=
  ⟨h.inv fun _ _ _ legal keys => Write.taskKeys legal keys, (FactStep.of_sparing h).sequence⟩

/-! ## Steps that are not a result of the turn -/

/-- What such a step does to a turn, its task and the results known: an append to the task raises
    its epoch. -/
structure Still (requestId : Text) (taskId : Int) (a b : LocalAdapter) : Prop where
  memory : Moves a.memory b.memory
  epoch : taskId ≤ a.memory.sequence.tasks → a.epochOf taskId ≤ b.epochOf taskId
  quiet : taskId ≤ a.memory.sequence.tasks → b.epochOf taskId = a.epochOf taskId →
    ∀ m ∈ b.memory.messages, m.taskId = taskId → m ∈ a.memory.messages
  turn : ∀ turn, a.turns.get? requestId = some turn → ∃ turn', b.turns.get? requestId = some turn' ∧
    turn'.taskId = turn.taskId ∧ turn'.scopeEpoch = turn.scopeEpoch
  tools : ∀ key tool, a.tools.get? key = some tool → tool.status = .completed →
    b.tools.get? key = some tool

namespace Still

variable {requestId : Text} {taskId : Int} {a b c : LocalAdapter}

theorem refl (s : LocalAdapter) : Still requestId taskId s s :=
  ⟨⟨id, le_refl _⟩, fun _ => le_refl _, fun _ _ _ member _ => member,
    fun turn found => ⟨turn, found, rfl, rfl⟩, fun _ _ found _ => found⟩

theorem trans (first : Still requestId taskId a b) (second : Still requestId taskId b c) :
    Still requestId taskId a c := by
  have later (known : taskId ≤ a.memory.sequence.tasks) : taskId ≤ b.memory.sequence.tasks :=
    le_trans known first.memory.sequence
  refine ⟨⟨fun keys => second.memory.keys (first.memory.keys keys),
    le_trans first.memory.sequence second.memory.sequence⟩,
    fun known => le_trans (first.epoch known) (second.epoch (later known)), ?_, ?_, ?_⟩
  · intro known same m member own
    have up := first.epoch known
    have upper := second.epoch (later known)
    have middle := second.quiet (later known) (by omega) m member own
    exact first.quiet known (by omega) m middle own
  · intro turn found
    obtain ⟨turn', found', task', epoch'⟩ := first.turn turn found
    obtain ⟨turn'', found'', task'', epoch''⟩ := second.turn turn' found'
    exact ⟨turn'', found'', task''.trans task', epoch''.trans epoch'⟩
  · intro key tool found done
    exact second.tools key tool (first.tools key tool found done) done

theorem trans_all : ∀ a b c, Still requestId taskId a b → Still requestId taskId b c →
    Still requestId taskId a c := fun _ _ _ => trans

/-- Neither the memory nor an epoch, a turn or a tool is touched. -/
theorem of_same (memory : b.memory = a.memory) (epoch : b.epoch = a.epoch)
    (turns : b.turns = a.turns) (tools : b.tools = a.tools) : Still requestId taskId a b := by
  refine ⟨?_, fun _ => ?_, fun _ _ m member _ => ?_, fun turn found => ?_, fun _ _ found _ => ?_⟩
  · rw [memory]
    exact ⟨id, le_refl _⟩
  · rw [LocalAdapter.epochOf, LocalAdapter.epochOf, epoch]
  · rwa [← memory]
  · exact ⟨turn, by rwa [turns], rfl, rfl⟩
  · rwa [tools]

/-- A turn is replaced by one of the same task with the same epoch. -/
theorem of_turn {key : Text} {turn old : Turn} (found : a.turns.get? key = some old)
    (task : turn.taskId = old.taskId) (epoch : turn.scopeEpoch = old.scopeEpoch) :
    Still requestId taskId a { a with turns := a.turns.set key turn } := by
  refine ⟨⟨id, le_refl _⟩, fun _ => le_refl _, fun _ _ _ member _ => member, fun mine here => ?_,
    fun _ _ found _ => found⟩
  show ∃ turn', (a.turns.set key turn).get? requestId = some turn' ∧ _
  by_cases same : requestId = key
  · subst same
    rw [OrderedDict.get?_set_self]
    obtain rfl := Option.some.inj (here.symm.trans found)
    exact ⟨turn, rfl, task, epoch⟩
  · rw [OrderedDict.get?_set_of_ne _ _ same]
    exact ⟨mine, here, rfl, rfl⟩

/-- A turn that was not there. -/
theorem of_new {key : Text} {turn : Turn} (absent : a.turns.get? key = none) :
    Still requestId taskId a { a with turns := a.turns.set key turn } := by
  refine ⟨⟨id, le_refl _⟩, fun _ => le_refl _, fun _ _ _ member _ => member, fun mine here => ?_,
    fun _ _ found _ => found⟩
  show ∃ turn', (a.turns.set key turn).get? requestId = some turn' ∧ _
  have other : requestId ≠ key := by
    rintro rfl
    rw [absent] at here
    cases here
  rw [OrderedDict.get?_set_of_ne _ _ other]
  exact ⟨mine, here, rfl, rfl⟩

/-- A tool that was not completed is set. -/
theorem of_tool {key : Text × Text} {tool : Tool}
    (pending : ∀ old, a.tools.get? key = some old → old.status ≠ .completed) :
    Still requestId taskId a { a with tools := a.tools.set key tool } := by
  refine ⟨⟨id, le_refl _⟩, fun _ => le_refl _, fun _ _ _ member _ => member,
    fun turn found => ⟨turn, found, rfl, rfl⟩, fun other old found done => ?_⟩
  show (a.tools.set key tool).get? other = some old
  by_cases same : other = key
  · subst same
    exact absurd done (pending old found)
  · rwa [OrderedDict.get?_set_of_ne _ _ same]

end Still

section Steps

variable {requestId : Text} {taskId : Int}

theorem dictionary_same (value : Json) (message : String) (s : LocalAdapter) :
    (dictionary value message s).2 = s :=
  Leads.ensuring (R := fun a b => b = a) (fun _ => rfl) (fun _ => rfl)

/-- What follows a write method of the memory: nothing where it fails. -/
theorem leads_onMemory {R : LocalAdapter → LocalAdapter → Prop} (refl : ∀ s, R s s) {α β : Type}
    {t : Tx α} {rest : α → Local β} {s : LocalAdapter}
    (writes : ∀ a db, t s.memory = .ok (a, db) → R s (rest a { s with memory := db }).2) :
    Leads R (onMemory t >>= rest) s := by
  cases run : t s.memory with
  | error e =>
    have failed : onMemory t s = (.error e, s) := by
      unfold onMemory
      rw [Txn.atomic_of_error run]
    refine .looking refl (by rw [failed]) fun a done => ?_
    rw [failed] at done
    cases (Prod.mk.inj done).1
  | ok r =>
    have passed : onMemory t s = (.ok r.1, { s with memory := r.2 }) := by
      unfold onMemory
      rw [Txn.atomic_ok.mpr run]
    unfold Leads
    simp only [Bind.bind, passed]
    exact writes r.1 r.2 run

/-- `append_evidence` changes nothing, or adds one message and raises the epoch of its task. -/
theorem leads_appendEvidence {R : LocalAdapter → LocalAdapter → Prop} (refl : ∀ s, R s s)
    {clk : Clock} {task : Int} {role content : Text} {source : Json} {s : LocalAdapter}
    (appends : ∀ id db, TaskMemory.append clk task role content source s.memory = .ok (id, db) →
      R s { s with memory := db, epoch := s.epoch.set task (s.epochOf task + 1) }) :
    Leads R (appendEvidence clk task role content source) s :=
  .looking refl (dictionary_same _ _ s) fun _ _ => leads_onMemory refl appends

theorem message_ok {id : Int} {db : Db} {row : MessageRow}
    (h : TaskMemory.message id db = .ok row) : row.id = id := by
  obtain ⟨_, _, found⟩ := except_bind_ok.mp h
  cases known : db.message? id with
  | none =>
    rw [known] at found
    cases found
  | some m =>
    rw [known] at found
    rw [← Except.ok.inj found]
    simpa using List.find?_some known

/-- What `append_evidence` returns is the new message. -/
theorem appendEvidence_ok {clk : Clock} {task : Int} {role content : Text} {source : Json}
    {s s' : LocalAdapter} {row : MessageRow}
    (h : appendEvidence clk task role content source s = (.ok row, s')) :
    ∃ db, TaskMemory.append clk task role content source s.memory = .ok (row.id, db) ∧
      s' = { s with memory := db, epoch := s.epoch.set task (s.epochOf task + 1) } := by
  obtain ⟨_, s₁, checked, rest⟩ := bind_ok.mp h
  have same := dictionary_same source "source must be a JSON object" s
  rw [checked] at same
  obtain rfl : s₁ = s := same
  obtain ⟨id, s₂, wrote, rest⟩ := bind_ok.mp rest
  obtain ⟨_, s₃, touched, asked⟩ := bind_ok.mp rest
  obtain ⟨found, rfl⟩ := ask_ok.mp asked
  obtain rfl := modify_ok.mp touched
  unfold onMemory at wrote
  obtain ⟨answer, rfl⟩ := Prod.mk.inj wrote
  refine ⟨_, ?_, rfl⟩
  rw [message_ok found]
  exact Txn.atomic_ok.mp (Prod.ext answer rfl)

theorem epochOf_set (s : LocalAdapter) (db : Db) (task : Int) (epoch : Int) (other : Int) :
    ({ s with memory := db, epoch := s.epoch.set task epoch } : LocalAdapter).epochOf other =
      if other = task then epoch else s.epochOf other := by
  show ((s.epoch.set task epoch).get? other).getD 0 = _
  rw [OrderedDict.get?_set]
  by_cases same : other = task
  · rw [if_pos same, if_pos same]
    rfl
  · rw [if_neg same, if_neg same]
    rfl

/-- An append: to the task it raises the epoch, to another it leaves the messages of the task. -/
theorem Still.of_append {clk : Clock} {task id : Int} {role content : Text} {source : Json}
    {s : LocalAdapter} {db : Db}
    (run : TaskMemory.append clk task role content source s.memory = .ok (id, db)) :
    Still requestId taskId s
      { s with memory := db, epoch := s.epoch.set task (s.epochOf task + 1) } := by
  obtain ⟨m, messages, _, own, _⟩ := TaskMemory.append_ok clk run
  have sparing : Evolves Write.Sparing s.memory db :=
    TaskMemory.keeps_append clk (fun _ => trivial) (fun _ _ _ => trivial) _ _ _ _ _ _ _ run
  refine ⟨.of_sparing sparing, fun _ => ?_, fun _ same n member mine => ?_,
    fun turn found => ⟨turn, found, rfl, rfl⟩, fun _ _ found _ => found⟩
  · rw [epochOf_set]
    by_cases here : taskId = task
    · subst here
      rw [if_pos rfl]
      omega
    · rw [if_neg here]
  · rw [epochOf_set] at same
    have other : taskId ≠ task := by
      rintro rfl
      rw [if_pos rfl] at same
      omega
    change n ∈ db.messages at member
    rw [messages] at member
    rcases List.mem_append.mp member with old | last
    · exact old
    · rw [List.mem_singleton.mp last, own] at mine
      exact absurd mine.symm other

theorem still_appendEvidence (clk : Clock) (task : Int) (role content : Text) (source : Json)
    (s : LocalAdapter) :
    Leads (Still requestId taskId) (appendEvidence clk task role content source) s :=
  leads_appendEvidence Still.refl fun _ _ run => .of_append run

/-- A new task has an identifier that was not given before. -/
theorem still_createTask (host : Host) (clk : Clock) (title : Text) (snapshot : Option Json)
    (s : LocalAdapter) : Leads (Still requestId taskId) (createTask host clk title snapshot) s := by
  refine .looking Still.refl (dictionary_same _ _ s) fun _ _ => ?_
  refine leads_onMemory Still.refl fun id db run => ?_
  have new := TaskMemory.createTask_id clk run
  have founds := TaskMemory.createTask_founds clk host title [] [] _ _ _ _ run
  have messages : db.messages = s.memory.messages :=
    messages_of_wordless (founds.mono fun w kind => by cases w <;> first | exact kind.elim | trivial)
  show Still requestId taskId s { s with memory := db, epoch := s.epoch.set id 0 }
  refine ⟨.of_sparing (founds.mono fun _ => Write.Founding.sparing), fun known => ?_,
    fun _ _ m member _ => messages ▸ member, fun turn found => ⟨turn, found, rfl, rfl⟩,
    fun _ _ found _ => found⟩
  rw [epochOf_set, if_neg (by omega)]

/-- Writing a snapshot changes the memory, not its messages. -/
theorem still_writeSnapshot (clk : Clock) (task revision : Int) (snapshot : Json)
    (s : LocalAdapter) :
    Leads (Still requestId taskId) (writeSnapshot clk task revision snapshot) s := by
  unfold writeSnapshot
  split
  · exact .pure Still.refl _
  · refine .ensuring Still.refl fun _ => ?_
    refine .mapError (.bind Still.trans_all ?_ fun _ _ _ => .pure Still.refl _)
    unfold Leads onMemory
    refine Txn.atomic_cases (P := fun db => Still requestId taskId s { s with memory := db })
      (Still.refl s) fun a db run => ?_
    have sparing : Evolves Wordless s.memory db :=
      TaskMemory.keeps_setSnapshot clk (fun _ _ _ => trivial) (fun _ _ _ => trivial) _ _ _ _ _ _ run
    refine ⟨.of_sparing (sparing.mono fun _ => Wordless.sparing), fun _ => le_refl _,
      fun _ _ m member _ => ?_, fun turn found => ⟨turn, found, rfl, rfl⟩, fun _ _ found _ => found⟩
    exact messages_of_wordless sparing ▸ member

/-- The turn a worker may work on. -/
theorem pending_ok {key : Text} {generation : Int} {turn : Turn} {s s' : LocalAdapter}
    (h : pending key generation s = (.ok turn, s')) :
    s' = s ∧ s.turns.get? key = some turn ∧ turn.status = .pending := by
  obtain ⟨found, rfl⟩ := ask_ok.mp h
  refine ⟨rfl, ?_⟩
  cases here : s'.turns.get? key with
  | none =>
    rw [here] at found
    cases found
  | some known =>
    rw [here] at found
    dsimp only at found
    by_cases status : known.status ≠ .pending
    · rw [if_pos status] at found
      cases found
    · rw [if_neg status] at found
      by_cases fenced : known.generation ≠ generation
      · rw [if_pos fenced] at found
        cases found
      · rw [if_neg fenced] at found
        obtain rfl := Except.ok.inj found
        exact ⟨rfl, not_not.mp status⟩

theorem pending_same (key : Text) (generation : Int) (s : LocalAdapter) :
    (pending key generation s).2 = s := rfl

theorem knownTool_ok {key callId : Text} {tool : Tool} {s s' : LocalAdapter}
    (h : knownTool key callId s = (.ok tool, s')) :
    s' = s ∧ s.tools.get? (key, callId) = some tool := by
  obtain ⟨found, rfl⟩ := ask_ok.mp h
  refine ⟨rfl, ?_⟩
  cases here : s'.tools.get? (key, callId) with
  | none =>
    rw [here] at found
    cases found
  | some known =>
    rw [here] at found
    rw [Except.ok.inj found]

theorem checkLease_same (clk : Clock) (generation : Int) (callId : Text) (tool : Tool)
    (token : Text) (s : LocalAdapter) : (checkLease clk generation callId tool token s).2 = s := by
  unfold checkLease
  split <;> rfl

/-- A look at the adapter changes nothing of it. -/
theorem still_ask {α : Type} (q : LocalAdapter → Except Failure α) (s : LocalAdapter) :
    Leads (Still requestId taskId) (ask q) s := .ask Still.refl q

theorem still_prepareTurn (host : Host) (clk : Clock) (a : BeginArgs) (s : LocalAdapter) :
    Leads (Still requestId taskId) (prepareTurn host clk a) s := by
  refine .mapError (.asking Still.refl fun _ _ => .asking Still.refl fun _ _ => ?_)
  exact .bind Still.trans_all (still_appendEvidence _ _ _ _ _ _) fun _ _ _ => .pure Still.refl _

theorem turns_prepareTurn (host : Host) (clk : Clock) (a : BeginArgs) (s : LocalAdapter) :
    (prepareTurn host clk a s).2.turns = s.turns := by
  have refl : ∀ s : LocalAdapter, s.turns = s.turns := fun _ => rfl
  refine Leads.mapError (R := fun a b : LocalAdapter => b.turns = a.turns)
    (.asking refl fun _ _ => .asking refl fun _ _ => ?_)
  exact .bind (fun _ _ _ first second => second.trans first)
    (leads_appendEvidence refl fun _ _ _ => rfl) fun _ _ _ => .pure refl _

theorem still_begin (host : Host) (clk : Clock) (a : BeginArgs) (s : LocalAdapter) :
    Leads (Still requestId taskId) (begin host clk a) s := by
  refine .ensuring Still.refl fun _ => .ensuring Still.refl fun _ => ?_
  refine .asking Still.refl fun fingerprint _ => .asking Still.refl fun old found => ?_
  have absent := Except.ok.inj found
  cases old with
  | some old =>
    dsimp only
    split
    · exact .raise Still.refl _
    · exact .pure Still.refl _
  | none =>
    refine .requiring Still.refl fun _ => ?_
    refine .bind Still.trans_all (still_prepareTurn _ _ _ _) fun prepared s₁ run => ?_
    have turns := turns_prepareTurn host clk a s
    rw [run] at turns
    refine .asking Still.refl fun epoch _ => ?_
    exact .bind Still.trans_all (.modify (.of_new (by rw [turns]; exact absent))) fun _ _ _ =>
      .pure Still.refl _

theorem still_storeTurn {key : Text} {turn : Turn} (old : Turn) {s : LocalAdapter}
    (found : s.turns.get? key = some old) (task : turn.taskId = old.taskId)
    (epoch : turn.scopeEpoch = old.scopeEpoch) :
    Leads (Still requestId taskId) (storeTurn key turn) s := .modify (.of_turn found task epoch)

theorem still_recover (key : Text) (generation : Int) (s : LocalAdapter) :
    Leads (Still requestId taskId) (recover key generation) s := by
  refine .looking Still.refl (pending_same _ _ _) fun turn run => ?_
  have found := (pending_ok run).2.1
  refine .asking Still.refl fun _ _ => .ensuring Still.refl fun _ => ?_
  exact .bind Still.trans_all (still_storeTurn _ found rfl rfl) fun _ _ _ => .pure Still.refl _

theorem still_abort (key : Text) (generation : Int) (s : LocalAdapter) :
    Leads (Still requestId taskId) (abort key generation) s := by
  refine .looking Still.refl (pending_same _ _ _) fun turn run => ?_
  exact still_storeTurn _ (pending_ok run).2.1 rfl rfl

/-- Only the model calls or the leases are touched. -/
theorem still_modify {g : LocalAdapter → LocalAdapter} {s : LocalAdapter}
    (memory : (g s).memory = s.memory) (epoch : (g s).epoch = s.epoch)
    (turns : (g s).turns = s.turns) (tools : (g s).tools = s.tools) :
    Leads (Still requestId taskId) (modify g : Local Unit) s :=
  .modify (.of_same memory epoch turns tools)

theorem still_checkpointModelRequest (key : Text) (generation : Int) (callId : Text) (payload : Json)
    (units : Int) (s : LocalAdapter) :
    Leads (Still requestId taskId) (checkpointModelRequest key generation callId payload units) s := by
  refine .looking Still.refl (pending_same _ _ _) fun turn _ => ?_
  refine .ensuring Still.refl fun _ => .ensuring Still.refl fun _ => .asking Still.refl fun raw _ => ?_
  refine .ensuring Still.refl fun _ => .asking Still.refl fun old _ => ?_
  have rest : ∀ s, Leads (Still requestId taskId)
      (do ensure raw.valid (.raised .value "surrogates not allowed"); pure raw : Local Text) s :=
    fun s => .ensuring Still.refl fun _ => .pure Still.refl _
  cases old with
  | some old => exact .ensuring Still.refl fun _ => rest _
  | none => exact .bind Still.trans_all (still_modify rfl rfl rfl rfl) fun _ _ _ => rest _

theorem still_recordModelResponse (key : Text) (generation : Int) (callId : Text) (response : Json)
    (s : LocalAdapter) :
    Leads (Still requestId taskId) (recordModelResponse key generation callId response) s := by
  refine .looking Still.refl (pending_same _ _ _) fun turn _ => .asking Still.refl fun old _ => ?_
  cases old with
  | none => exact .raise Still.refl _
  | some call =>
    refine .asking Still.refl fun read _ => ?_
    refine .ensuring Still.refl fun _ => .ensuring Still.refl fun _ => ?_
    exact still_modify rfl rfl rfl rfl

theorem still_startTool (host : Host) (key : Text) (generation : Int) (callId name : Text)
    (arguments : Json) (s : LocalAdapter) :
    Leads (Still requestId taskId) (startTool host key generation callId name arguments) s := by
  refine .looking Still.refl (pending_same _ _ _) fun turn _ => .ensuring Still.refl fun _ => ?_
  refine .asking Still.refl fun raw _ => .asking Still.refl fun fingerprint _ => ?_
  refine .asking Still.refl fun old found => ?_
  have known := Except.ok.inj found
  cases old with
  | some tool =>
    dsimp only
    split
    · exact .raise Still.refl _
    · exact .pure Still.refl _
  | none =>
    refine .bind Still.trans_all (.modify (.of_tool fun old here => ?_)) fun _ _ _ =>
      .pure Still.refl _
    rw [known] at here
    cases here

theorem still_actionEligible (host : Host) (clk : Clock) (key : Text) (generation : Int)
    (callId : Text) (ttlMs : Int) (s : LocalAdapter) :
    Leads (Still requestId taskId) (actionEligible host clk key generation callId ttlMs) s := by
  refine .looking Still.refl (pending_same _ _ _) fun turn _ => .ensuring Still.refl fun _ => ?_
  refine .asking Still.refl fun tool _ => .ensuring Still.refl fun _ => ?_
  refine .requiring Still.refl fun _ => ?_
  refine .bind Still.trans_all (still_modify rfl rfl rfl rfl) fun _ _ _ => ?_
  refine .asking Still.refl fun nonce _ => .asking Still.refl fun token _ => ?_
  exact .bind Still.trans_all (still_modify rfl rfl rfl rfl) fun _ _ _ => .pure Still.refl _

theorem checkSupports_same (turn : Turn) (snapshot provenance : Json) (s : LocalAdapter) :
    (checkSupports turn snapshot provenance s).2 = s := by
  have refl : ∀ s : LocalAdapter, s = s := fun _ => rfl
  unfold checkSupports
  split
  · exact Leads.asking (R := fun a b : LocalAdapter => b = a) refl fun _ _ => rfl
  · rfl

/-- The checks of `commit` change nothing. -/
theorem checkCommit_same (py : Interpreter) (key : Text) (generation : Int) (reply : Json)
    (s : LocalAdapter) : (checkCommit py key generation reply s).2 = s := by
  have refl : ∀ s : LocalAdapter, s = s := fun _ => rfl
  refine Leads.looking (R := fun a b : LocalAdapter => b = a) refl rfl fun turn _ => ?_
  refine Leads.asking (R := fun a b : LocalAdapter => b = a) refl fun text _ => ?_
  refine Leads.asking (R := fun a b : LocalAdapter => b = a) refl fun task _ => ?_
  refine Leads.ensuring (R := fun a b : LocalAdapter => b = a) refl fun _ => ?_
  refine Leads.requiring (R := fun a b : LocalAdapter => b = a) refl fun _ => ?_
  refine Leads.looking (R := fun a b : LocalAdapter => b = a) refl
    (checkSupports_same _ _ _ _) fun _ _ => ?_
  exact Leads.asking (R := fun a b : LocalAdapter => b = a) refl fun _ _ =>
    Leads.asking (R := fun a b : LocalAdapter => b = a) refl fun _ _ => rfl

/-- What the checks of `commit` return. -/
theorem checkCommit_ok {py : Interpreter} {key : Text} {generation : Int} {reply : Json}
    {s s' : LocalAdapter} {checked : Turn × TaskRow × Text}
    (h : checkCommit py key generation reply s = (.ok checked, s')) :
    s.turns.get? key = some checked.1 := by
  obtain ⟨turn, s₁, first, rest⟩ := bind_ok.mp h
  obtain ⟨_, _, _, rest⟩ := bind_ok.mp rest
  obtain ⟨_, _, _, rest⟩ := bind_ok.mp rest
  obtain ⟨_, _, _, rest⟩ := bind_ok.mp rest
  obtain ⟨_, _, _, rest⟩ := bind_ok.mp rest
  obtain ⟨_, _, _, rest⟩ := bind_ok.mp rest
  obtain ⟨_, _, _, rest⟩ := bind_ok.mp rest
  obtain ⟨_, _, _, rest⟩ := bind_ok.mp rest
  rw [(pure_ok.mp rest).1]
  exact (pending_ok first).2.1

theorem turns_writeSnapshot (clk : Clock) (task revision : Int) (snapshot : Json)
    (s : LocalAdapter) : (writeSnapshot clk task revision snapshot s).2.turns = s.turns := by
  have refl : ∀ s : LocalAdapter, s.turns = s.turns := fun _ => rfl
  unfold writeSnapshot
  split
  · rfl
  · refine Leads.ensuring (R := fun a b : LocalAdapter => b.turns = a.turns) refl fun _ => ?_
    exact .mapError (.bind (fun _ _ _ first second => second.trans first) rfl fun _ _ _ => rfl)

theorem turns_appendEvidence (clk : Clock) (task : Int) (role content : Text) (source : Json)
    (s : LocalAdapter) : (appendEvidence clk task role content source s).2.turns = s.turns :=
  leads_appendEvidence (R := fun a b : LocalAdapter => b.turns = a.turns) (fun _ => rfl)
    fun _ _ _ => rfl

theorem tools_appendEvidence (clk : Clock) (task : Int) (role content : Text) (source : Json)
    (s : LocalAdapter) : (appendEvidence clk task role content source s).2.tools = s.tools :=
  leads_appendEvidence (R := fun a b : LocalAdapter => b.tools = a.tools) (fun _ => rfl)
    fun _ _ _ => rfl

theorem still_commit (py : Interpreter) (clk : Clock) (key : Text) (generation : Int) (reply : Json)
    (s : LocalAdapter) :
    Leads (Still requestId taskId) (commit py clk key generation reply) s := by
  refine .looking Still.refl (checkCommit_same _ _ _ _ _) fun checked run => ?_
  have found := checkCommit_ok run
  rcases checked with ⟨turn, task, text⟩
  dsimp only at found ⊢
  refine .bind Still.trans_all (still_appendEvidence _ _ _ _ _ _) fun m s₁ appended => ?_
  refine .bind Still.trans_all (still_writeSnapshot _ _ _ _ _) fun _ s₂ written => ?_
  have turns : s₂.turns = s.turns := by
    have first := turns_appendEvidence clk turn.taskId Role.assistant.text text
      (.obj [(Text.lit "request_id", .str key)]) s
    have second := turns_writeSnapshot clk turn.taskId task.revision (Autosave.field "snapshot" reply) s₁
    rw [appended] at first
    rw [written] at second
    exact second.trans first
  refine .bind Still.trans_all (still_storeTurn turn ?_ rfl rfl) fun _ _ _ =>
    .pure Still.refl _
  rw [turns]
  exact found

/-- A tool of another turn. -/
theorem still_finishTool (clk : Clock) {key : Text} (other : requestId ≠ key) (generation : Int)
    (callId : Text) (result : Json) (token : Text) (s : LocalAdapter) :
    Leads (Still requestId taskId) (finishTool clk key generation callId result token) s := by
  refine .looking Still.refl (pending_same _ _ _) fun turn _ => ?_
  refine .looking Still.refl rfl fun tool known => .asking Still.refl fun raw _ => ?_
  have held := (knownTool_ok known).2
  split
  · split
    · exact .raise Still.refl _
    · exact .pure Still.refl _
  · rename_i started
    refine .looking Still.refl (checkLease_same _ _ _ _ _ _) fun _ _ => ?_
    refine .bind Still.trans_all (still_appendEvidence _ _ _ _ _ _) fun m s₁ appended => ?_
    have tools := tools_appendEvidence clk turn.taskId Role.tool.text raw
      (.obj [(Text.lit "request_id", .str key), (Text.lit "call_id", .str callId),
        (Text.lit "tool", .str tool.name)]) s
    rw [appended] at tools
    refine .bind Still.trans_all (.modify ?_) fun _ _ _ => .pure Still.refl _
    have one : Still requestId taskId s₁ { s₁ with
        tools := s₁.tools.set (key, callId) { tool with
          status := .completed, result := some result, resultJson := some raw
          evidenceId := some m.id, created := false } } := .of_tool fun old here => by
        rw [tools, held] at here
        rw [← Option.some.inj here]
        exact started
    refine one.trans ⟨⟨id, le_refl _⟩, fun _ => le_refl _, fun _ _ _ member _ => member,
      fun mine here => ⟨mine, ?_, rfl, rfl⟩, fun _ _ found _ => found⟩
    exact (OrderedDict.get?_set_of_ne _ _ other).trans here

/-- Every operation but a finish of a tool of the turn. -/
theorem still_run (py : Interpreter) (clk : Clock) (op : AdapterOp)
    (other : ∀ key generation callId result token,
      op = .finishTool key generation callId result token → requestId ≠ key) (s : LocalAdapter) :
    Leads (Still requestId taskId) (op.run py clk) s := by
  cases op with
  | createTask title snapshot => exact .quietly (still_createTask _ _ _ _ _)
  | appendEvidence task role content source => exact .quietly (still_appendEvidence _ _ _ _ _ _)
  | begin a => exact .quietly (still_begin _ _ _ _)
  | inspect key => exact .quietly (.ask Still.refl _)
  | recover key generation => exact .quietly (still_recover _ _ _)
  | checkpointModelRequest key generation callId payload units =>
    exact .quietly (still_checkpointModelRequest _ _ _ _ _ _)
  | recordModelResponse key generation callId response =>
    exact still_recordModelResponse _ _ _ _ _
  | modelCalls key => exact .quietly (.ask Still.refl _)
  | startTool key generation callId name arguments =>
    exact .quietly (still_startTool _ _ _ _ _ _ _)
  | actionEligible key generation callId ttlMs =>
    exact .quietly (still_actionEligible _ _ _ _ _ _ _)
  | finishTool key generation callId result token =>
    exact .quietly (still_finishTool _ (other _ _ _ _ _ rfl) _ _ _ _ _)
  | commit key generation reply => exact .quietly (still_commit _ _ _ _ _ _)
  | abort key generation => exact still_abort _ _ _

end Steps

/-! ## A turn over a run -/

/-- The message is the recorded result of a finished tool of the turn. -/
def LocalAdapter.OwnResult (s : LocalAdapter) (requestId : Text) (m : MessageRow) : Prop :=
  ∃ callId tool, s.tools.get? (requestId, callId) = some tool ∧ tool.status = .completed ∧
    tool.evidenceId = some m.id

/-- Of the messages of its task, a turn that is still fresh has seen none but those of the start and
    its own results. -/
structure Tracked (requestId : Text) (taskId : Int) (start : List MessageRow) (s : LocalAdapter) :
    Prop where
  keys : s.memory.TaskKeys
  given : taskId ≤ s.memory.sequence.tasks
  turn : ∃ turn, s.turns.get? requestId = some turn ∧ turn.taskId = taskId ∧
    turn.scopeEpoch ≤ s.epochOf taskId ∧
    (turn.scopeEpoch = s.epochOf taskId → ∀ m ∈ s.memory.messages, m.taskId = taskId →
      m ∈ start ∨ s.OwnResult requestId m)

/-- A finish of a started tool of the turn meets the epoch the turn captured. -/
def LocalAdapter.current (s : LocalAdapter) (requestId : Text) : AdapterOp → Bool
  | .finishTool key _ callId _ _ =>
      key != requestId ||
        match s.turns.get? key, s.tools.get? (key, callId) with
        | some turn, some tool =>
            tool.status != .started || turn.scopeEpoch == s.epochOf turn.taskId
        | _, _ => true
  | _ => true

/-- So does every one in a run. -/
def LocalAdapter.allCurrent (py : Interpreter) (requestId : Text) (s : LocalAdapter) :
    List (Clock × AdapterOp) → Bool
  | [] => true
  | call :: rest =>
      s.current requestId call.2 && (s.next py call).allCurrent py requestId rest

namespace Tracked

variable {requestId : Text} {taskId : Int} {start : List MessageRow} {a b : LocalAdapter}

theorem still (h : Tracked requestId taskId start a) (step : Still requestId taskId a b) :
    Tracked requestId taskId start b := by
  obtain ⟨turn, found, task, low, own⟩ := h.turn
  obtain ⟨turn', found', task', epoch'⟩ := step.turn turn found
  have up := step.epoch h.given
  refine ⟨step.memory.keys h.keys, le_trans h.given step.memory.sequence, turn', found',
    task'.trans task, by omega, fun same m member mine => ?_⟩
  have before := step.quiet h.given (by omega) m member mine
  rcases own (by omega) m before mine with first | ⟨callId, tool, known, done, result⟩
  · exact .inl first
  · exact .inr ⟨callId, tool, step.tools _ _ known done, done, result⟩

/-- The turn records a result of its own while its epoch is the current one. -/
theorem recordResult (h : Tracked requestId taskId start a) {clk : Clock} {callId raw : Text}
    {turn : Turn} {tool : Tool} {result : Json} (found : a.turns.get? requestId = some turn)
    (known : a.tools.get? (requestId, callId) = some tool) (started : tool.status ≠ .completed)
    (current : turn.scopeEpoch = a.epochOf turn.taskId) :
    Tracked requestId taskId start
      (Conformance.recordResult clk requestId callId turn tool result raw a).2 := by
  obtain ⟨mine, here, task, _, own⟩ := h.turn
  obtain rfl := Option.some.inj (here.symm.trans found)
  subst task
  refine Leads.bind (R := fun _ b => Tracked requestId mine.taskId start b)
    (fun _ _ _ _ second => second) (h.still (still_appendEvidence _ _ _ _ _ _))
    fun row s₁ appended => ?_
  have after : Tracked requestId mine.taskId start s₁ := by
    have step : Still requestId mine.taskId a (appendEvidence clk mine.taskId Role.tool.text raw
        (.obj [(Text.lit "request_id", .str requestId), (Text.lit "call_id", .str callId),
          (Text.lit "tool", .str tool.name)]) a).2 := still_appendEvidence _ _ _ _ _ _
    rw [appended] at step
    exact h.still step
  obtain ⟨db, run, rfl⟩ := appendEvidence_ok appended
  obtain ⟨m, messages, id, _⟩ := TaskMemory.append_ok clk run
  -- the state after the tool and the turn are set, which is where the epoch is captured
  refine ⟨after.keys, after.given, _, OrderedDict.get?_set_self _ _ _, rfl, le_refl _,
    fun _ n member same => ?_⟩
  change n ∈ db.messages at member
  rw [messages] at member
  rcases List.mem_append.mp member with old | last
  · rcases own current n old same with first | ⟨other, done, held, status, evidence⟩
    · exact .inl first
    · refine .inr ⟨other, done, ?_, status, evidence⟩
      have apart : (requestId, other) ≠ (requestId, callId) := by
        intro same
        rw [same, known] at held
        rw [Option.some.inj held] at started
        exact started status
      exact (OrderedDict.get?_set_of_ne _ _ apart).trans held
  · rw [List.mem_singleton.mp last]
    exact .inr ⟨callId, _, OrderedDict.get?_set_self _ _ _, rfl, by rw [id]⟩

/-- A finish of a tool of the turn, where it meets the epoch. -/
theorem finishTool (h : Tracked requestId taskId start a) {clk : Clock} {generation : Int}
    {callId token : Text} {result : Json}
    (current : a.current requestId (.finishTool requestId generation callId result token) = true) :
    Tracked requestId taskId start
      (Conformance.finishTool clk requestId generation callId result token a).2 := by
  have refl : ∀ s, Tracked requestId taskId start s → Tracked requestId taskId start s :=
    fun _ => id
  refine Leads.looking
    (R := fun a b => Tracked requestId taskId start a → Tracked requestId taskId start b) refl
    (pending_same _ _ _) (fun turn first => ?_) h
  refine .looking refl rfl fun tool second => .asking refl fun raw _ => ?_
  have found := (pending_ok first).2.1
  have known := (knownTool_ok second).2
  split
  · split
    · exact .raise refl _
    · exact .pure refl _
  · rename_i started
    refine .looking refl (checkLease_same _ _ _ _ _ _) fun _ _ tracked => ?_
    refine tracked.recordResult found known started ?_
    have open_ : tool.status = .started := by
      cases status : tool.status with
      | started => rfl
      | completed => exact absurd status started
    simpa [LocalAdapter.current, found, known, open_] using current

theorem next (h : Tracked requestId taskId start a) {py : Interpreter} {call : Clock × AdapterOp}
    (current : a.current requestId call.2 = true) :
    Tracked requestId taskId start (a.next py call) := by
  obtain ⟨clk, op⟩ := call
  by_cases own : ∃ generation callId result token,
      op = .finishTool requestId generation callId result token
  · obtain ⟨generation, callId, result, token, rfl⟩ := own
    exact Leads.quietly (R := fun _ b => Tracked requestId taskId start b) (h.finishTool current)
  · refine h.still (still_run py clk op (fun key generation callId result token same => ?_) a)
    rintro rfl
    exact own ⟨generation, callId, result, token, same⟩

theorem after {py : Interpreter} {calls : List (Clock × AdapterOp)}
    (h : Tracked requestId taskId start a) (current : a.allCurrent py requestId calls = true) :
    Tracked requestId taskId start (a.after py calls) := by
  induction calls generalizing a with
  | nil => exact h
  | cons call rest ih =>
    obtain ⟨here, later⟩ := Bool.and_eq_true_iff.mp current
    exact ih (h.next here) later

end Tracked

/-- The memory of an adapter gives task identifiers once, upwards. -/
theorem taskKeys_after (py : Interpreter) (calls : List (Clock × AdapterOp)) :
    (LocalAdapter.new.after py calls).memory.TaskKeys := by
  have step (s : LocalAdapter) (call : Clock × AdapterOp) (keys : s.memory.TaskKeys) :
      (s.next py call).memory.TaskKeys := by
    obtain ⟨clk, op⟩ := call
    -- no turn of this name has a tool that the operation finishes
    obtain ⟨name, other⟩ : ∃ name : Text, ∀ key generation callId result token,
        op = .finishTool key generation callId result token → name ≠ key := by
      cases op with
      | finishTool key generation callId result token =>
        refine ⟨.char 'x' :: key, fun key' _ _ _ _ same => ?_⟩
        cases same
        exact List.cons_ne_self _ _
      | _ => exact ⟨[], fun _ _ _ _ _ same => by cases same⟩
    have still : Still name 0 s (op.run py clk s).2 := still_run py clk op other s
    exact still.memory.keys keys
  unfold LocalAdapter.after
  generalize start : LocalAdapter.new = s
  have keys : s.memory.TaskKeys := by
    subst start
    exact ⟨List.nodup_nil, fun r member => nomatch member⟩
  clear start
  induction calls generalizing s with
  | nil => exact keys
  | cons call rest ih => exact ih _ (step s call keys)

theorem findTask_ok {taskId : Int} {db : Db} {row : TaskRow}
    (h : TaskMemory.findTask taskId db = .ok row) : (db.task? taskId).isSome := by
  obtain ⟨_, _, found⟩ := except_bind_ok.mp h
  cases known : db.task? taskId with
  | none =>
    rw [known] at found
    cases found
  | some r => rfl

/-- A turn is prepared for a task that is there. -/
theorem prepareTurn_ok {host : Host} {clk : Clock} {a : BeginArgs} {s s' : LocalAdapter}
    {prepared : Package × TaskRow} (h : prepareTurn host clk a s = (.ok prepared, s')) :
    (s.memory.task? a.taskId).isSome := by
  obtain ⟨_, s₁, first, rest⟩ := bind_ok.mp (mapError_ok.mp h)
  obtain ⟨_, same⟩ := ask_ok.mp first
  obtain ⟨task, s₂, second, _⟩ := bind_ok.mp rest
  obtain ⟨found, _⟩ := ask_ok.mp second
  rw [same] at found
  exact findTask_ok found

/-- What a `begin` that creates a turn leaves. -/
theorem begin_created {host : Host} {clk : Clock} {a : BeginArgs} {s s' : LocalAdapter} {turn : Turn}
    (keys : s.memory.TaskKeys) (run : begin host clk a s = (.ok turn, s'))
    (created : turn.created = true) :
    Tracked a.requestId a.taskId s'.memory.messages s' := by
  obtain ⟨_, s₁, first, run₁⟩ := bind_ok.mp run
  obtain ⟨_, same₁⟩ := ensure_ok.mp first
  obtain ⟨_, s₂, second, run₂⟩ := bind_ok.mp run₁
  obtain ⟨_, same₂⟩ := ensure_ok.mp second
  obtain ⟨fingerprint, s₃, third, run₃⟩ := bind_ok.mp run₂
  obtain ⟨_, same₃⟩ := ask_ok.mp third
  obtain ⟨old, s₄, fourth, run₄⟩ := bind_ok.mp run₃
  obtain ⟨_, same₄⟩ := ask_ok.mp fourth
  obtain rfl : s₄ = s := by rw [same₄, same₃, same₂, same₁]
  cases old with
  | some old =>
    dsimp only at run₄
    by_cases other : old.fingerprint ≠ fingerprint
    · rw [if_pos other] at run₄
      exact (raise_ok.mp run₄).elim
    · rw [if_neg other] at run₄
      rw [(pure_ok.mp run₄).1] at created
      cases created
  | none =>
    obtain ⟨_, s₅, fifth, run₅⟩ := bind_ok.mp run₄
    obtain ⟨_, rfl⟩ := require_ok.mp fifth
    obtain ⟨prepared, s₆, sixth, run₆⟩ := bind_ok.mp run₅
    obtain ⟨epoch, s₇, seventh, run₇⟩ := bind_ok.mp run₆
    obtain ⟨captured, rfl⟩ := ask_ok.mp seventh
    obtain ⟨_, s₈, eighth, last⟩ := bind_ok.mp run₇
    obtain ⟨_, rfl⟩ := pure_ok.mp last
    obtain rfl := modify_ok.mp eighth
    have still : Still [] 0 s₅ (prepareTurn host clk a s₅).2 := still_prepareTurn host clk a s₅
    rw [sixth] at still
    have moves := still.memory
    have given := le_trans (keys.task_given (prepareTurn_ok sixth)) moves.sequence
    refine ⟨moves.keys keys, given, _, OrderedDict.get?_set_self _ _ _, rfl, ?_,
      fun _ m member _ => .inl member⟩
    rw [Except.ok.inj captured.symm]
    exact le_refl _

/-- What made a turn eligible: it is pending and its epoch is the current one. -/
theorem actionEligible_ok {host : Host} {clk : Clock} {key callId : Text} {generation ttlMs : Int}
    {s s' : LocalAdapter} {lease : Eligible}
    (h : actionEligible host clk key generation callId ttlMs s = (.ok lease, s')) :
    ∃ turn, s.turns.get? key = some turn ∧ turn.scopeEpoch = s.epochOf turn.taskId := by
  obtain ⟨turn, s₁, first, rest⟩ := bind_ok.mp h
  obtain ⟨same, found, _⟩ := pending_ok first
  obtain ⟨_, s₂, second, rest₂⟩ := bind_ok.mp rest
  obtain ⟨_, same₂⟩ := ensure_ok.mp second
  obtain ⟨_, s₃, third, rest₃⟩ := bind_ok.mp rest₂
  obtain ⟨same₃, _⟩ := knownTool_ok third
  obtain ⟨_, s₄, fourth, rest₄⟩ := bind_ok.mp rest₃
  obtain ⟨_, same₄⟩ := ensure_ok.mp fourth
  obtain ⟨_, s₅, fifth, _⟩ := bind_ok.mp rest₄
  obtain ⟨fresh, _⟩ := require_ok.mp fifth
  rw [same₄, same₃, same₂, same] at fresh
  exact ⟨turn, found, (eq_of_beq fresh).symm⟩

/-- In a run in which every finish of a started tool of the turn meets the epoch the turn captured,
    the turn is eligible only if nothing was appended to its task since `begin` but its own
    results. -/
theorem eligible_saw_own_results (py : Interpreter) (before after : List (Clock × AdapterOp))
    (clk clk' : Clock) (a : BeginArgs) (turn : Turn) (s s' : LocalAdapter) (generation : Int)
    (callId : Text) (ttlMs : Int) (lease : Eligible)
    (opened : begin py.toHost clk a (LocalAdapter.new.after py before) = (.ok turn, s))
    (created : turn.created = true) (current : s.allCurrent py a.requestId after = true)
    (eligible : actionEligible py.toHost clk' a.requestId generation callId ttlMs
      (s.after py after) = (.ok lease, s')) :
    ∀ m ∈ (s.after py after).memory.messages, m.taskId = a.taskId →
      m ∈ s.memory.messages ∨ (s.after py after).OwnResult a.requestId m := by
  intro m member mine
  have tracked := (begin_created (taskKeys_after py before) opened created).after current
  obtain ⟨known, found, task, _, own⟩ := tracked.turn
  obtain ⟨known', found', fresh⟩ := actionEligible_ok eligible
  obtain rfl := Option.some.inj (found.symm.trans found')
  exact own (by rw [fresh, task]) m member mine

/-- An interpreter for short runs. -/
def plainInterpreter : Interpreter := { plainHost with int := fun _ => none }

/-- A scoped turn on the first task. -/
def scopedBegin : BeginArgs :=
  { requestId := Text.lit "r", taskId := 1, query := Text.lit "q", consistency := Text.lit "scope" }

/-- The first task. -/
def oneTask : List (Clock × AdapterOp) := [(plainClock, .createTask (Text.lit "t") none)]

/-- Two tools are started and the first one finishes. -/
def ownFinish : List (Clock × AdapterOp) :=
  [(plainClock, .startTool (Text.lit "r") 1 (Text.lit "a") (Text.lit "f") (.obj [])),
    (plainClock, .startTool (Text.lit "r") 1 (Text.lit "b") (Text.lit "f") (.obj [])),
    (plainClock, .finishTool (Text.lit "r") 1 (Text.lit "a") (.int 1) [])]

/-- The same with evidence from elsewhere before the finish. -/
def lateEvidence : List (Clock × AdapterOp) :=
  ownFinish.take 2 ++
    (plainClock, .appendEvidence 1 (Text.lit "document") (Text.lit "news") (.obj [])) ::
      ownFinish.drop 2

/-- The adapter once the turn is open. -/
def openedTurn : LocalAdapter :=
  (begin plainHost plainClock scopedBegin (LocalAdapter.new.after plainInterpreter oneTask)).2

/-- What the three runs come to: the turn that is opened, the run with its own result, and the run
    with evidence from elsewhere. -/
theorem runs_evaluate :
    (begin plainHost plainClock scopedBegin (LocalAdapter.new.after plainInterpreter oneTask)).1.toOption.map
        (fun turn => (turn.created, turn.package.consistency)) = some (true, Text.lit "scope") ∧
    openedTurn.memory.messages.map (·.id) = [1] ∧
    openedTurn.allCurrent plainInterpreter (Text.lit "r") ownFinish = true ∧
    (actionEligible plainHost plainClock (Text.lit "r") 1 (Text.lit "b") 5000
      (openedTurn.after plainInterpreter ownFinish)).1.toBool = true ∧
    (actionEligible plainHost plainClock (Text.lit "r") 1 (Text.lit "b") 5000
      (openedTurn.after plainInterpreter lateEvidence)).1.toBool = true ∧
    (openedTurn.after plainInterpreter lateEvidence).memory.messages.map
      (fun m => (m.id, m.taskId)) = [(1, 1), (2, 1), (3, 1)] ∧
    (openedTurn.after plainInterpreter lateEvidence).tools.entries.map
      (fun e => e.2.evidenceId) = [some 3, none] := by
  decide +kernel

theorem openedTurn_created : ∃ turn,
    begin plainHost plainClock scopedBegin (LocalAdapter.new.after plainInterpreter oneTask) =
      (.ok turn, openedTurn) ∧ turn.created = true ∧
        turn.package.consistency = Text.lit "scope" := by
  have created := runs_evaluate.1
  unfold openedTurn
  cases run : begin plainHost plainClock scopedBegin
      (LocalAdapter.new.after plainInterpreter oneTask) with
  | mk answer s =>
    rw [run] at created
    cases answer with
    | error e => cases created
    | ok turn =>
      obtain ⟨made, bound⟩ := Prod.mk.inj (Option.some.inj created)
      exact ⟨turn, rfl, made, bound⟩

theorem exists_eligible {s : LocalAdapter}
    (h : (actionEligible plainHost plainClock (Text.lit "r") 1 (Text.lit "b") 5000 s).1.toBool =
      true) :
    ∃ lease s', actionEligible plainHost plainClock (Text.lit "r") 1 (Text.lit "b") 5000 s =
      (.ok lease, s') := by
  obtain ⟨lease, run⟩ := exists_ok h
  exact ⟨lease, _, Prod.ext run rfl⟩

/-- The second tool is eligible after the first one finished, and the turn saw its own result. -/
theorem eligible_after_own_finish : ∃ turn s lease s',
    begin plainHost plainClock scopedBegin (LocalAdapter.new.after plainInterpreter oneTask) =
      (.ok turn, s) ∧ turn.created = true ∧
    s.allCurrent plainInterpreter (Text.lit "r") ownFinish = true ∧
    actionEligible plainHost plainClock (Text.lit "r") 1 (Text.lit "b") 5000
      (s.after plainInterpreter ownFinish) = (.ok lease, s') ∧
    ∀ m ∈ (s.after plainInterpreter ownFinish).memory.messages, m.taskId = 1 →
      m ∈ s.memory.messages ∨ (s.after plainInterpreter ownFinish).OwnResult (Text.lit "r") m := by
  obtain ⟨turn, opened, created, _⟩ := openedTurn_created
  obtain ⟨_, _, current, own, _⟩ := runs_evaluate
  obtain ⟨lease, s', eligible⟩ := exists_eligible own
  exact ⟨turn, openedTurn, lease, s', opened, created, current, eligible,
    eligible_saw_own_results plainInterpreter oneTask ownFinish plainClock plainClock scopedBegin
      turn openedTurn s' 1 (Text.lit "b") 5000 lease opened created current eligible⟩

/-- Evidence from elsewhere before the finish: the second tool is eligible all the same. -/
theorem eligible_after_late_evidence : ∃ turn s lease s',
    begin plainHost plainClock scopedBegin (LocalAdapter.new.after plainInterpreter oneTask) =
      (.ok turn, s) ∧ turn.created = true ∧ turn.package.consistency = Text.lit "scope" ∧
    actionEligible plainHost plainClock (Text.lit "r") 1 (Text.lit "b") 5000
      (s.after plainInterpreter lateEvidence) = (.ok lease, s') ∧
    ∃ m ∈ (s.after plainInterpreter lateEvidence).memory.messages, m.taskId = 1 ∧
      m ∉ s.memory.messages ∧
        ¬ (s.after plainInterpreter lateEvidence).OwnResult (Text.lit "r") m := by
  obtain ⟨turn, opened, created, bound⟩ := openedTurn_created
  obtain ⟨_, started, _, _, late, stored, results⟩ := runs_evaluate
  obtain ⟨lease, s', eligible⟩ := exists_eligible late
  have second : ((2, 1) : Int × Int) ∈
      (openedTurn.after plainInterpreter lateEvidence).memory.messages.map
        (fun m => (m.id, m.taskId)) := by
    rw [stored]
    simp
  obtain ⟨m, member, same⟩ := List.mem_map.mp second
  obtain ⟨id, task⟩ := Prod.mk.inj same
  refine ⟨turn, openedTurn, lease, s', opened, created, bound, eligible, m, member, task, ?_, ?_⟩
  · intro old
    have listed := List.mem_map_of_mem (f := fun m : MessageRow => m.id) old
    rw [started, id] at listed
    simp at listed
  · rintro ⟨callId, tool, found, _, evidence⟩
    have listed := List.mem_map_of_mem (f := fun e : (Text × Text) × Tool => e.2.evidenceId)
      (OrderedDict.mem_of_get? found)
    rw [results] at listed
    dsimp only at listed
    rw [evidence, id] at listed
    simp at listed

end Cmpath.Conformance
