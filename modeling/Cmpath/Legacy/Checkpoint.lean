import Cmpath.Autosave.Storing
import Cmpath.Lib.Layers
import Cmpath.Lib.OrderedDict

/-!
# The migration of a legacy checkpoint

`migrate_v02` (`src/cmpath/migrate.py`): a portable version-2 checkpoint becomes a fresh database.
Its paths become tasks in layers of their dependencies, its messages become evidence of the path
whose segments hold their timestamps. A checkpoint is the value its JSON decodes to, with the
fields the migration reads; timestamps are any numbers that are linearly ordered.
-/

namespace Cmpath
open Lib Lib.Txn

namespace Legacy

/-- A message of a log. -/
structure Message (τ : Type) where
  ts : τ
  role : Text
  content : Text
  metadata : Json := .null

/-- A stretch of the log that belongs to a path; an open one has no end. -/
structure Segment (τ : Type) where
  startTs : τ
  endTs : Option τ := none

/-- A path; an absent waypoint is the empty one. -/
structure Path (τ : Type) where
  dependsOn : List Text := []
  waypoint : List (Text × Json) := []
  snapshot : Json := .null
  segments : List (Segment τ) := []
  state : Text := []

/-- A path of the eviction archive with its messages. -/
structure EvictedRow (τ : Type) where
  id : Text
  record : Path τ
  messages : List (Message τ)

/-- A checkpoint; an absent active path is the empty text. -/
structure Checkpoint (τ : Type) where
  version : Int
  paths : OrderedDict Text (Path τ)
  activeId : Text := []
  evictedRows : List (EvictedRow τ) := []
  log : List (Message τ) := []

/-- What the migration works on: every path, and the messages of the evicted ones. -/
structure Archive (τ : Type) where
  records : OrderedDict Text (Path τ)
  payloads : OrderedDict Text (List (Message τ)) := .empty

/-- `mapping` and `owners`. -/
structure Progress (τ : Type) where
  mapping : OrderedDict Text Int := .empty
  owners : OrderedDict τ Text := .empty

/-- What the migration returns. -/
structure Report where
  mapping : List (Text × Int)
  messages : Nat

section

variable {τ : Type} [LinearOrder τ]

/-- One evicted row joins the paths (`migrate.py:23-28`). -/
def Archive.add (a : Archive τ) (row : EvictedRow τ) : Except Failure (Archive τ) :=
  if row.id ∈ a.records.keys then
    .error (.raised .value "A legacy path exists in both the live graph and eviction archive")
  else .ok ⟨a.records.set row.id row.record, a.payloads.set row.id row.messages⟩

/-- `records` and `payloads` (`migrate.py:21-28`). -/
def Checkpoint.archive (c : Checkpoint τ) : Except Failure (Archive τ) :=
  c.evictedRows.foldlM Archive.add ⟨c.paths, .empty⟩

/-- The message lies in a segment. -/
def Segment.holds (s : Segment τ) (m : Message τ) : Bool :=
  decide (s.startTs < m.ts) && s.endTs.all fun last => decide (m.ts ≤ last)

/-- The messages of a path (`migrate.py:44-48`). -/
def Checkpoint.messagesOf (c : Checkpoint τ) (a : Archive τ) (pid : Text) (rec_ : Path τ) :
    List (Message τ) :=
  match a.payloads.get? pid with
  | some messages => messages
  | none => c.log.filter fun m => rec_.segments.any (·.holds m)

/-- `x or {}`. -/
def orObject (j : Json) : Json := if Autosave.truthy j then j else .obj []

/-- `waypoint.get("title") or pid`. -/
def Path.title (rec_ : Path τ) (pid : Text) : Json :=
  let title := Autosave.field "title" (.obj rec_.waypoint)
  if Autosave.truthy title then title else .str pid

/-- `create_task` of values JSON decodes to: what it checks of them before the row is written. -/
def createTask (host : Host) (clk : Clock) (title : Json) (parents : List Int) (alias_ : Text)
    (snapshot : Json) : Tx Int :=
  match title with
  | .str title => do
      ensure (title.strip != []) (.raised .value "A nonempty task title is required")
      ensure (TaskMemory.phrase host alias_ != []) (.raised .value "Aliases must contain words")
      ensure (Autosave.isObject snapshot) (.raised .value "snapshot must be a JSON object")
      ensure snapshot.finite (.raised .value "Out of range float values are not JSON compliant")
      TaskMemory.createTask host clk title parents [alias_] snapshot
  | _ => fail (.raised .value "A nonempty task title is required")

/-- `append` of a source with values JSON decodes to: `_json` refuses infinities. -/
def append (clk : Clock) (taskId : Int) (role : Role) (content : Text) (source : Json) : Tx Int := do
  ensure (content.strip != []) (.raised .value "Evidence content must be nonempty text")
  ensure source.finite (.raised .value "Out of range float values are not JSON compliant")
  TaskMemory.append clk taskId role.text content source

/-- The role a message is stored with (`migrate.py:56`). -/
def Message.storedRole (m : Message τ) : Role := (Role.ofText? m.role).getD .document

/-- The source a message is stored with (`migrate.py:57`); `stamp` is the JSON of a timestamp. -/
def Message.source (stamp : τ → Json) (pid : Text) (m : Message τ) : Json :=
  .obj [(Text.lit "legacy_path", .str pid), (Text.lit "legacy_ts", stamp m.ts),
    (Text.lit "legacy_role", .str m.role), (Text.lit "legacy_metadata", orObject m.metadata)]

/-- The messages of a path, one by one (`migrate.py:49-57`). -/
def migrateMessages (clk : Nat → Clock) (stamp : τ → Json) (pid : Text) (taskId : Int) :
    OrderedDict τ Text → List (Message τ) → Tx (OrderedDict τ Text)
  | owners, [] => pure owners
  | owners, m :: rest => do
      ensure ((owners.get? m.ts).all (· == pid))
        (.raised .value "Legacy timestamp is owned by multiple paths")
      let owners := owners.set m.ts pid
      if m.content.strip = [] then migrateMessages clk stamp pid taskId owners rest
      else do
        let _ ← append (clk rest.length) taskId m.storedRole m.content (m.source stamp pid)
        migrateMessages clk stamp pid taskId owners rest

/-- The text of a waypoint (`migrate.py:59`). -/
def Path.waypointText (rec_ : Path τ) : Text :=
  Text.lit "Legacy waypoint, retained as derived summary data: " ++
    Autosave.compactJson (.obj rec_.waypoint)

def Path.waypointSource (pid : Text) : Json :=
  .obj [(Text.lit "legacy_path", .str pid), (Text.lit "kind", .str (Text.lit "derived_waypoint"))]

/-- The waypoint of a path, where it has one (`migrate.py:58-59`). -/
def migrateWaypoint (clk : Clock) (pid : Text) (rec_ : Path τ) (taskId : Int) : Tx Unit :=
  if rec_.waypoint = [] then pure ()
  else do
    let _ ← append clk taskId .document rec_.waypointText (Path.waypointSource pid)
    pure ()

/-- A path is hidden once migrated (`migrate.py:60`). -/
def Path.hidden (rec_ : Path τ) : Bool :=
  rec_.state == Text.lit "archived" || rec_.state == Text.lit "evicted"

/-- One path (`migrate.py:37-61`); `clk pid n` is the clock of a call made for it. -/
def migratePath (host : Host) (clk : Text → Nat → Clock) (stamp : τ → Json) (c : Checkpoint τ)
    (a : Archive τ) (s : Progress τ) (pid : Text) : Tx (Progress τ) :=
  match a.records.get? pid with
  | none => fail (.raised .key "pid")
  | some rec_ =>
      match rec_.dependsOn.mapM s.mapping.get? with
      | none => fail (.raised .key "parent")
      | some parents => do
          let id ← createTask host (clk pid 0) (rec_.title pid) parents pid (orObject rec_.snapshot)
          let owners ← migrateMessages (fun n => clk pid (n + 3)) stamp pid id s.owners
            (c.messagesOf a pid rec_)
          migrateWaypoint (clk pid 1) pid rec_ id
          if rec_.hidden then TaskMemory.archive (clk pid 2) id else pure ()
          pure ⟨s.mapping.set pid id, owners⟩

/-- `rec.get("depends_on",[])`. -/
def Archive.needs (a : Archive τ) (pid : Text) : List Text :=
  ((a.records.get? pid).map (·.dependsOn)).getD []

/-- The active path is resumed last (`migrate.py:62-66`). -/
def resumeActive (clk : Clock) (c : Checkpoint τ) (s : Progress τ) : Tx Unit :=
  if c.activeId = [] then pure ()
  else
    match s.mapping.get? c.activeId with
    | none => fail (.raised .value "Legacy active path is missing")
    | some id => do
        let _ ← TaskMemory.resume clk id none
        pure ()

/-- The batch of `migrate_v02` (`migrate.py:31-66`): each round takes at least one path. -/
def migrateBatch (host : Host) (clk : Text → Nat → Clock) (stamp : τ → Json) (c : Checkpoint τ)
    (a : Archive τ) : Tx (Progress τ) := do
  let s ← Layers.run Text.le a.needs (fun s => s.mapping.keys) (migratePath host clk stamp c a)
    (.raised .value "Legacy dependencies contain a cycle or missing parent") a.records.keys.length {}
    a.records.keys
  resumeActive (clk [] 0) c s
  pure s

/-- `migrate_v02` (`migrate.py:10-70`): the database at the destination, where one is made. -/
def migrateV02 (host : Host) (clk : Text → Nat → Clock) (stamp : τ → Json) (c : Checkpoint τ) :
    Except Failure (Report × Db) :=
  if c.version ≠ 2 then
    .error (.raised .value
      "Only portable version-2 checkpoints, including evicted_rows, are supported")
  else do
    let a ← c.archive
    let (result, db) := atomic (migrateBatch host clk stamp c a) .empty
    let s ← result
    pure (⟨s.mapping.entries, db.messages.length⟩, db)

end

end Legacy

end Cmpath
