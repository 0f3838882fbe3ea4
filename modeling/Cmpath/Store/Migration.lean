import Cmpath.Lib.Script
import Cmpath.Store.Migrate

/-!
# The NOT NULL migration

What `Open` makes of a database whose `cmp_turns` was written before the constraint: it fails and
leaves it as it is, or fails after the rebuild is committed, or completes it. The rebuild and the
journal script are two transactions, and a completed database stays as it is when it is opened
again.
-/

namespace Cmpath
open Lib Lib.Sql

/-! ## The copy -/

section Copy

theorem lookup_zip_map {f : String → Value} {column : String} :
    ∀ {columns : List String}, column ∈ columns →
      (columns.zip (columns.map f)).lookup column = some (f column)
  | [], h => absurd h List.not_mem_nil
  | head :: rest, h => by
      rw [List.map_cons, List.zip_cons_cons, List.lookup_cons]
      by_cases own : column = head
      · subst own
        simp
      · have later := (List.mem_cons.mp h).resolve_left own
        simp only [beq_eq_false_iff_ne.mpr own]
        exact lookup_zip_map later

theorem map_lookup_zip : ∀ {columns : List String} {row : Row}, columns.Nodup →
    row.length = columns.length →
      (columns.map fun c => ((columns.zip row).lookup c).getD .null) = row
  | [], [], _, _ => rfl
  | [], _ :: _, _, h => by cases h
  | _ :: _, [], _, h => by cases h
  | head :: rest, value :: row, nodup, h => by
      obtain ⟨fresh, nodup⟩ := List.nodup_cons.mp nodup
      have later := @map_lookup_zip rest row nodup (Nat.succ.inj h)
      rw [List.zip_cons_cons, List.map_cons, List.lookup_cons, beq_self_eq_true]
      simp only [Option.getD_some, List.cons.injEq, true_and]
      refine Eq.trans (List.map_congr_left fun c member => ?_) later
      have other : c ≠ head := fun same => fresh (same ▸ member)
      rw [List.lookup_cons, beq_eq_false_iff_ne.mpr other]

/-- A row read column by column and written back is the row. -/
theorem build_pick {d d' : Decl} {row : Row} (same : d'.names = d.names) (nodup : d.names.Nodup)
    (fits : row.length = d.columns.length) : d'.build d.names (d.pick row d.names) = row := by
  have length : row.length = d.names.length := by rw [fits, Decl.names, List.length_map]
  unfold Decl.build Decl.pick
  rw [same]
  refine Eq.trans (List.map_congr_left fun c member => ?_) (map_lookup_zip nodup length)
  rw [lookup_zip_map member]
  rfl

end Copy

/-! ## The rebuild -/

/-- The tables `journal.sql` writes rows to. -/
def JournalWritten (n : String) : Prop := n = "cmp_harness_meta" ∨ n = "cmp_scope_epochs"

/-- A database of the engine whose `cmp_turns`, this table, was created before the constraint. Its
    rows are any rows, and it may have further objects. -/
structure Legacy (t : Table) (file : Catalog) : Prop where
  turns : file.table? "cmp_turns" = some t
  decl : t.decl = turnsDecl false
  anchored : ∀ u ∈ file.triggers, file.hasTable u.table = true ∨ file.hasView u.table = true
  quiet : ∀ u ∈ file.triggers, ¬ JournalWritten u.table
  guards : ∀ u ∈ file.triggers,
    u.name = retiredGuard.name ∨ u.name = retiredUpdateGuard.name → u.table = "cmp_turns"
  harness : ∃ m, file.table? "cmp_harness_meta" = some m ∧ m.decl = harnessMetaDecl
  epochs : ∀ e, file.table? "cmp_scope_epochs" = some e → e.decl = scopeEpochsDecl

/-- The rebuild has made and committed this. -/
structure Rebuilt (t : Table) (file after : Catalog) : Prop where
  turns : ∃ t', after.table? "cmp_turns" = some t' ∧ t'.decl = turnsDecl true ∧ t'.rows = t.rows
  gone : after.table? cmpTurnsRebuildTable = none
  others : ∀ n, n ≠ "cmp_turns" → n ≠ cmpTurnsRebuildTable →
    after.table? n = (file.table? n).map (Table.repoint cmpTurnsRebuildTable "cmp_turns")
  index : onePendingIndex ∈ after.indexes
  guards : file.hasTable "cmp_retired_turns" = true →
    retiredGuard ∈ after.triggers ∧ retiredUpdateGuard ∈ after.triggers
  triggers : ∀ u, u ∈ after.triggers →
    u = retiredGuard ∨ u = retiredUpdateGuard ∨
      (u ∈ file.triggers ∧ u.table ≠ "cmp_turns" ∧ u.table ≠ cmpTurnsRebuildTable)
  kept : ∀ u ∈ file.triggers, u.table ≠ "cmp_turns" → u.table ≠ cmpTurnsRebuildTable →
    u ∈ after.triggers
  views : after.views = file.views
  sound : after.violations = []

/-- The guards were made where there is something to guard. -/
def GuardsMade (fire : Fire) (replaced after : Catalog) : Prop :=
  if replaced.hasTable "cmp_retired_turns" then
    runAll fire false [.createTrigger retiredGuard false, .createTrigger retiredUpdateGuard false]
      replaced = .ok after
  else after = replaced

/-- The statements of the rebuild ran from one database to another. -/
def RebuildRan (fire : Fire) (file after : Catalog) : Prop :=
  ∃ copied replaced, runAll fire false copyStatements file = .ok copied ∧
    runAll fire false replaceStatements copied = .ok replaced ∧
    GuardsMade fire replaced after ∧ after.violations = []

section Rebuild

variable {fire : Fire} {file c c' : Catalog} {t : Table}

/-- The copy is made beside everything else. -/
structure Copied (t : Table) (file after : Catalog) : Prop where
  copy : ∃ r, after.table? cmpTurnsRebuildTable = some r ∧ r.decl = turnsDecl true ∧ r.rows = t.rows
  others : ∀ n, n ≠ cmpTurnsRebuildTable → after.table? n = file.table? n
  triggers : ∀ u, u ∈ after.triggers ↔ u ∈ file.triggers ∧ u.table ≠ cmpTurnsRebuildTable
  views : after.views = file.views

/-- The name of the copy is free, and no trigger hangs on it. -/
structure Freed (file after : Catalog) : Prop where
  others : ∀ n, n ≠ cmpTurnsRebuildTable → after.table? n = file.table? n
  triggers : ∀ u, u ∈ after.triggers ↔ u ∈ file.triggers ∧ u.table ≠ cmpTurnsRebuildTable
  views : after.views = file.views

theorem dropCopy_ok (legacy : Legacy t file)
    (run : Stmt.run fire false file (.dropTable cmpTurnsRebuildTable true) = .ok c) :
    Freed file c := by
  simp only [Stmt.run, Bool.false_and, Bool.false_eq_true, if_false] at run
  split at run
  · cases run
    refine ⟨fun n other => ?_, fun u => ?_, rfl⟩
    · rw [Catalog.table?_drop, if_neg other]
    · simp [Catalog.drop, List.mem_filter]
  · rename_i absent
    split at run
    · rename_i viewless
      cases run
      simp only [Bool.true_and, Bool.not_eq_true'] at viewless
      refine ⟨fun _ _ => rfl, fun u => ⟨fun member => ⟨member, fun own => ?_⟩, And.left⟩, rfl⟩
      rcases legacy.anchored u member with table | view
      · exact absent (own ▸ table)
      · rw [own, viewless] at view
        cases view
    · cases run

theorem createCopy_ok
    (run : Stmt.run fire false file (.createTable cmpTurnsRebuildTable (turnsDecl true) false) =
      .ok c) :
    file.table? cmpTurnsRebuildTable = none ∧
      c = file.createTable cmpTurnsRebuildTable (turnsDecl true) := by
  simp only [Stmt.run, Bool.false_eq_true, if_false] at run
  split at run
  · cases run
  · rename_i absent
    split at run
    · cases run
    · cases run
      simp only [Bool.or_eq_true, not_or, Bool.not_eq_true] at absent
      exact ⟨Catalog.hasTable_false.mp absent.1, rfl⟩

theorem Legacy.names (legacy : Legacy t file) : t.decl.names = cmpTurnsColumns := by
  rw [legacy.decl]
  rfl

/-- The rows read column by column are written as they were. -/
theorem copied_rows (legacy : Legacy t file) {rows : List Row}
    (source : c.table? "cmp_turns" = some t)
    (got : c.select (cmpTurnsColumns.map .column) (some "cmp_turns") = .ok rows) :
    rows.map ((turnsDecl true).build cmpTurnsColumns) = t.rows := by
  have read : rows = t.rows.map fun row => t.decl.pick row t.decl.names := by
    simp only [Catalog.select, source, Except.ok.injEq] at got
    rw [← got, legacy.names]
    refine List.map_congr_left fun row _ => ?_
    rw [List.map_map]
    rfl
  rw [read, List.map_map]
  refine Eq.trans (List.map_congr_left fun row member => ?_) (List.map_id _)
  rw [Function.comp, ← legacy.names]
  refine build_pick ?_ ?_ (t.fits row member)
  · rw [legacy.decl]
    rfl
  · rw [legacy.names]
    decide

theorem copyStatements_ok (legacy : Legacy t file)
    (run : runAll fire false copyStatements file = .ok c) : Copied t file c := by
  obtain ⟨dropped, drop, run⟩ := runAll_cons.mp run
  obtain ⟨created, create, run⟩ := runAll_cons.mp run
  obtain ⟨_, insert, run⟩ := runAll_cons.mp run
  cases run
  have freed := dropCopy_ok legacy drop
  obtain ⟨absent, rfl⟩ := createCopy_ok create
  obtain ⟨r, rows, found, got, inserting, _⟩ := Stmt.run_insert insert
  have unarmed : (dropped.createTable cmpTurnsRebuildTable (turnsDecl true)).armed
      cmpTurnsRebuildTable .insert = false := by
    unfold Catalog.armed
    rw [List.any_eq_false]
    intro u member hit
    simp only [Bool.and_eq_true, beq_iff_eq] at hit
    exact ((freed.triggers u).mp member).2 hit.1
  obtain ⟨new, inserted, _, strict, _⟩ := insertRows_inserted unarmed found inserting
  obtain ⟨r₀, r', found₀, found', decl', rows'⟩ := inserted.table
  rw [Catalog.table?_createTable absent, if_pos rfl] at found found₀
  cases found
  cases found₀
  have source : (dropped.createTable cmpTurnsRebuildTable (turnsDecl true)).table? "cmp_turns" =
      some t := by
    rw [Catalog.table?_createTable absent, if_neg (by decide), freed.others _ (by decide)]
    exact legacy.turns
  have same : new = t.rows := (strict rfl).trans (copied_rows legacy source got)
  refine ⟨⟨r', found', decl', ?_⟩, fun n other => ?_, fun u => ?_, ?_⟩
  · rw [rows', same]
    rfl
  · rw [inserted.others n other, Catalog.table?_createTable absent, if_neg other]
    exact freed.others n other
  · rw [inserted.triggers]
    exact freed.triggers u
  · rw [inserted.views]
    exact freed.views

/-- The copy is in the place of the table, with its index. -/
structure Replaced (t : Table) (file after : Catalog) : Prop where
  turns : ∃ t', after.table? "cmp_turns" = some t' ∧ t'.decl = turnsDecl true ∧ t'.rows = t.rows
  gone : after.table? cmpTurnsRebuildTable = none
  others : ∀ n, n ≠ "cmp_turns" → n ≠ cmpTurnsRebuildTable →
    after.table? n = (file.table? n).map (Table.repoint cmpTurnsRebuildTable "cmp_turns")
  index : onePendingIndex ∈ after.indexes
  triggers : ∀ u, u ∈ after.triggers ↔
    u ∈ file.triggers ∧ u.table ≠ "cmp_turns" ∧ u.table ≠ cmpTurnsRebuildTable
  views : after.views = file.views

theorem replaceStatements_ok (copied : Copied t file c)
    (run : runAll fire false replaceStatements c = .ok c') : Replaced t file c' := by
  obtain ⟨dropped, drop, run⟩ := runAll_cons.mp run
  obtain ⟨renamed, rename, run⟩ := runAll_cons.mp run
  obtain ⟨_, index, run⟩ := runAll_cons.mp run
  cases run
  simp only [Stmt.run, Bool.false_and, Bool.false_eq_true, if_false] at drop
  split at drop
  case isFalse =>
    cases drop
  cases drop
  simp only [Stmt.run] at rename
  split at rename
  · cases rename
  split at rename
  · cases rename
  split at rename
  · cases rename
  cases rename
  have absent : (c.drop "cmp_turns").table? "cmp_turns" = none := by
    rw [Catalog.table?_drop, if_pos rfl]
  obtain ⟨r, copy, decl, rows⟩ := copied.copy
  -- the tables after the renaming
  have turns : ((c.drop "cmp_turns").rename cmpTurnsRebuildTable "cmp_turns").table? "cmp_turns" =
      some (r.rename cmpTurnsRebuildTable "cmp_turns") := by
    rw [Catalog.table?_rename_new absent, Catalog.table?_drop, if_neg (by decide), copy]
    rfl
  have others : ∀ n, n ≠ "cmp_turns" → n ≠ cmpTurnsRebuildTable →
      ((c.drop "cmp_turns").rename cmpTurnsRebuildTable "cmp_turns").table? n =
        (file.table? n).map (Table.repoint cmpTurnsRebuildTable "cmp_turns") := by
    intro n ours copy_
    rw [Catalog.table?_rename_other copy_ ours, Catalog.table?_drop, if_neg ours,
      copied.others n copy_]
  have gone : ((c.drop "cmp_turns").rename cmpTurnsRebuildTable "cmp_turns").table?
      cmpTurnsRebuildTable = none := Catalog.table?_rename_old (by decide)
  have triggers : ∀ u, u ∈ ((c.drop "cmp_turns").rename cmpTurnsRebuildTable "cmp_turns").triggers ↔
      u ∈ file.triggers ∧ u.table ≠ "cmp_turns" ∧ u.table ≠ cmpTurnsRebuildTable := by
    intro u
    have there : ∀ v, v ∈ (c.drop "cmp_turns").triggers ↔
        v ∈ file.triggers ∧ v.table ≠ "cmp_turns" ∧ v.table ≠ cmpTurnsRebuildTable := by
      intro v
      simp only [Catalog.drop, List.mem_filter, bne_iff_ne, copied.triggers v]
      tauto
    have same : ((c.drop "cmp_turns").rename cmpTurnsRebuildTable "cmp_turns").triggers =
        (c.drop "cmp_turns").triggers := by
      refine Eq.trans (List.map_congr_left fun v member => ?_) (List.map_id _)
      rw [if_neg (by simpa using ((there v).mp member).2.2)]
      rfl
    rw [same]
    exact there u
  simp only [Stmt.run, Bool.false_eq_true, if_false] at index
  split at index
  · cases index
  split at index
  · cases index
  split at index
  · cases index
  split at index
  case isFalse =>
    cases index
  cases index
  refine ⟨⟨_, turns, ?_, ?_⟩, gone, others,
    List.mem_append_right _ (List.mem_singleton_self _), triggers, copied.views⟩
  · have own := Catalog.table?_name copy
    unfold Table.rename
    rw [if_pos (by simpa using own)]
    show r.decl.repoint _ _ = _
    rw [decl]
    decide
  · have own := Catalog.table?_name copy
    unfold Table.rename
    rw [if_pos (by simpa using own)]
    exact rows

theorem createTrigger_ok {u : Trigger} {on : Bool}
    (run : (Stmt.createTrigger u false).run fire on c = .ok c') :
    c' = { c with triggers := c.triggers ++ [u] } := by
  simp only [Stmt.run, Bool.false_eq_true, if_false] at run
  split at run
  · cases run
  split at run
  · cases run
  · cases run
    rfl

/-- **The rebuild.** -/
theorem RebuildRan.rebuilt (legacy : Legacy t file) (h : RebuildRan fire file c) :
    Rebuilt t file c := by
  obtain ⟨copied, replaced, copies, replaces, guards, sound⟩ := h
  have r := replaceStatements_ok (copyStatements_ok legacy copies) replaces
  have retired : replaced.hasTable "cmp_retired_turns" = file.hasTable "cmp_retired_turns" := by
    rw [Bool.eq_iff_iff, Catalog.hasTable_iff, Catalog.hasTable_iff,
      r.others _ (by decide) (by decide)]
    simp [Option.map_eq_some_iff]
  unfold GuardsMade at guards
  rw [retired] at guards
  cases there : file.hasTable "cmp_retired_turns" with
  | false =>
    rw [there, if_neg (by decide)] at guards
    subst guards
    exact ⟨r.turns, r.gone, r.others, r.index, fun h => absurd (there.symm.trans h) (by decide),
      fun u member => .inr (.inr ((r.triggers u).mp member)),
      fun u member ours copy => (r.triggers u).mpr ⟨member, ours, copy⟩, r.views, sound⟩
  | true =>
    rw [there, if_pos rfl] at guards
    obtain ⟨mid, first, guards⟩ := runAll_cons.mp guards
    obtain ⟨_, second, guards⟩ := runAll_cons.mp guards
    cases guards
    obtain rfl := createTrigger_ok first
    obtain rfl := createTrigger_ok second
    refine ⟨r.turns, r.gone, r.others, r.index, fun _ => ⟨by simp, by simp⟩, fun u member => ?_,
      fun u member ours copy => ?_, r.views, sound⟩
    · simp only [List.mem_append, List.mem_singleton] at member
      rcases member with (old | rfl) | rfl
      · exact .inr (.inr ((r.triggers u).mp old))
      · exact .inl rfl
      · exact .inr (.inl rfl)
    · exact List.mem_append_left _ (List.mem_append_left _ ((r.triggers u).mpr ⟨member, ours, copy⟩))

end Rebuild

/-! ## The programs -/

section Programs

variable {world : World} {file : Catalog} {on : Bool}

theorem Triple.sql {α : Type} {p : Program SqlError α} {pre fails fails' : Connection → Prop}
    {post : α → Connection → Prop} (h : Triple pre p post fails) (weaker : ∀ c, fails c → fails' c) :
    Triple pre (Cmpath.sql p) post fails' :=
  (h.weaken (fun _ start => start) (fun _ _ done => done) weaker).mapError

theorem recreateGuards_triple {replaced : Catalog} :
    Triple (Working file replaced false) (recreateGuards world)
      (fun _ c => ∃ db, GuardsMade world.fire replaced db ∧ Working file db false c) (Left file) := by
  unfold recreateGuards
  refine Triple.bind (Triple.sql Triple.query_working Working.left) fun guarded => ?_
  refine Triple.of_and fun answer => ?_
  cases answer
  refine Triple.ite (fun there => ?_) fun absent => ?_
  · have run := @Triple.script_stmts world file replaced false
      [.createTrigger retiredGuard false, .createTrigger retiredUpdateGuard false]
    refine (Triple.sql run fun _ h => h).weaken (fun _ h => h) ?_ fun _ h => h
    rintro _ c ⟨db, made, left⟩
    exact ⟨db, by rw [GuardsMade, if_pos there]; exact made, left⟩
  · refine (Triple.pure ()).weaken (fun c h => ⟨replaced, ?_, h⟩) (fun _ _ h => h) fun _ h => h
    rw [GuardsMade, if_neg (by simp [absent])]

theorem commitRebuild_triple {db : Catalog} :
    Triple (Working file db false) (commitRebuild world)
      (fun _ c => db.violations = [] ∧ Idle db false c) (Left file) := by
  unfold commitRebuild
  refine Triple.bind (Triple.sql Triple.query_working Working.left) fun violations => ?_
  refine Triple.of_and fun answer => ?_
  cases answer
  refine Triple.ite (fun _ => ?_) fun none_ => ?_
  · exact (Triple.fail _).weaken Working.left (fun _ _ h => h) fun _ h => h
  have sound : db.violations = [] := List.length_eq_zero_iff.mp (by simpa using none_)
  exact (Triple.sql Triple.exec_commit Working.left).weaken (fun _ h => h)
    (fun _ c idle => ⟨sound, idle⟩) fun _ h => h

theorem rebuildBody_triple :
    Triple (Working file file false) (rebuildBody world)
      (fun _ c => ∃ db, RebuildRan world.fire file db ∧ Idle db false c) (Left file) := by
  unfold rebuildBody countRows
  refine Triple.bind (Triple.sql Triple.query_working Working.left) fun before => ?_
  refine Triple.of_and fun _ => ?_
  refine Triple.bind (Triple.sql Triple.script_stmts fun _ h => h) fun _ => ?_
  refine Triple.ex fun copied => Triple.of_and fun copies => ?_
  refine Triple.bind (Triple.sql Triple.query_working Working.left) fun count => ?_
  refine Triple.of_and fun _ => ?_
  refine Triple.ite (fun _ => ?_) fun _ => ?_
  · exact (Triple.fail _).weaken Working.left (fun _ _ h => h) fun _ h => h
  refine Triple.bind (Triple.sql Triple.script_stmts fun _ h => h) fun _ => ?_
  refine Triple.ex fun replaced => Triple.of_and fun replaces => ?_
  refine Triple.bind recreateGuards_triple fun _ => ?_
  refine Triple.ex fun db => Triple.of_and fun made => ?_
  refine commitRebuild_triple.weaken (fun _ h => h) ?_ fun _ h => h
  exact fun _ c ⟨sound, idle⟩ => ⟨db, ⟨copied, replaced, copies, replaces, made, sound⟩, idle⟩

theorem rebuildTurnRequestID_triple :
    Triple (Idle file false) (rebuildTurnRequestID world)
      (fun _ c => ∃ db, RebuildRan world.fire file db ∧ Idle db false c) (Left file) := by
  unfold rebuildTurnRequestID
  refine Triple.bind (Triple.sql Triple.exec_begin Idle.left) fun _ => ?_
  exact Triple.orElse rebuildBody_triple (Triple.ignore Triple.exec_rollback)

/-- What the probe reads. -/
def turnsColumn (c : Catalog) : List String × String × Bool :=
  let info := ((c.table? "cmp_turns").map fun t => t.decl.columns).getD []
  let own := info.filter (·.name == "request_id")
  (info.map Column.name, (own.getLast?.map Column.kind).getD "",
    (own.getLast?.map Column.notNull).getD false)

/-- The probe finds a nullable `request_id`. -/
def Nullable (c : Catalog) : Prop :=
  (turnsColumn c).2.1 = "TEXT" ∧ (turnsColumn c).2.2 = false

theorem turnRequestIDNullable_triple :
    Triple (Idle file on) (turnRequestIDNullable world)
      (fun answer c => (answer = true ↔ Nullable file) ∧ Idle file on c) (Left file) := by
  unfold turnRequestIDNullable turnRequestIDColumn
  refine Triple.bind (Triple.sql Triple.query_idle Idle.left) fun found => ?_
  refine Triple.of_and fun answer => ?_
  cases answer
  refine Triple.ite (fun declared => ?_) fun nullable => ?_
  · refine (Triple.pure false).weaken (fun c h => ⟨?_, h⟩) (fun _ _ h => h) fun _ h => h
    simp only [Bool.false_eq_true, false_iff]
    rintro ⟨kind, flag⟩
    simp only [Bool.or_eq_true, bne_iff_ne] at declared
    exact declared.elim (fun other => other kind) fun set => absurd (set.symm.trans flag) (by decide)
  refine Triple.ite (fun _ => ?_) fun _ => ?_
  · exact (Triple.fail _).weaken Idle.left (fun _ _ h => h) fun _ h => h
  · refine (Triple.pure true).weaken (fun c h => ⟨?_, h⟩) (fun _ _ h => h) fun _ h => h
    simp only [Bool.or_eq_false_iff, bne_eq_false_iff_eq] at nullable
    simp only [true_iff]
    exact nullable

/-- What the migration makes of a file. -/
def MigratedTo (fire : Fire) (file db : Catalog) : Prop :=
  (¬ Nullable file ∧ db = file) ∨ (Nullable file ∧ RebuildRan fire file db)

theorem migrateTurnRequestID_triple :
    Triple (Idle file true) (migrateTurnRequestID world)
      (fun _ c => ∃ db, MigratedTo world.fire file db ∧ Idle db true c)
      (fun c => c.file = file ∨ MigratedTo world.fire file c.file) := by
  unfold migrateTurnRequestID countRows
  have left : ∀ c : Connection, Left file c →
      c.file = file ∨ MigratedTo world.fire file c.file := fun _ h => .inl h
  refine Triple.bind (turnRequestIDNullable_triple.weaken (fun _ h => h) (fun _ _ h => h) left)
    fun rebuild => ?_
  refine Triple.of_and fun answer => ?_
  refine Triple.ite (fun declared => ?_) fun nullable => ?_
  · have other : ¬ Nullable file := fun h => by simp [answer.mpr h] at declared
    exact (Triple.pure ()).weaken (fun c h => ⟨file, .inl ⟨other, rfl⟩, h⟩) (fun _ _ h => h)
      fun _ h => h
  have nullable : Nullable file := answer.mp (by simpa using nullable)
  refine Triple.bind (Triple.sql Triple.query_idle fun c h => left c h.left) fun nulls => ?_
  refine Triple.of_and fun _ => ?_
  refine Triple.ite (fun _ => ?_) fun _ => ?_
  · exact (Triple.fail _).weaken (fun c h => left c h.left) (fun _ _ h => h) fun _ h => h
  refine Triple.bind (Triple.sql Triple.exec_foreignKeys fun c h => left c h.left) fun _ => ?_
  have rebuilt : Triple (Idle file false)
      ((rebuildTurnRequestID world).orElse (.ignore (exec world (.foreignKeys true))))
      (fun _ c => ∃ db, RebuildRan world.fire file db ∧ Idle db false c) (Left file) :=
    Triple.orElse rebuildTurnRequestID_triple (Triple.ignore Triple.exec_foreignKeys_left)
  refine Triple.bind (rebuilt.weaken (fun _ h => h) (fun _ _ h => h) left) fun _ => ?_
  refine Triple.ex fun db => Triple.of_and fun ran => ?_
  refine (Triple.sql Triple.exec_foreignKeys ?_).weaken (fun _ h => h) ?_ fun _ h => h
  · rintro c ⟨rfl, _⟩
    exact .inr (.inr ⟨nullable, ran⟩)
  · exact fun _ c idle => ⟨db, .inr ⟨nullable, ran⟩, idle⟩

/-- The journal has its one version row, if it has a journal. -/
def Marked (c : Catalog) : Prop :=
  ∀ m, c.table? "cmp_harness_meta" = some m → ∃ row ∈ m.rows, m.decl.get row "singleton" = .integer 1

theorem checkHarness_triple :
    Triple (Idle file on) (checkHarness world) (fun _ c => Marked file ∧ Idle file on c)
      (Left file) := by
  unfold checkHarness
  refine Triple.bind (Triple.sql Triple.query_idle Idle.left) fun known => ?_
  refine Triple.of_and fun answer => ?_
  refine Triple.ite (fun _ => ?_) fun unknown => ?_
  · refine Triple.bind (Triple.sql Triple.query_idle Idle.left) fun versions => ?_
    refine Triple.of_and fun read => ?_
    refine Triple.ite (fun one => ?_) fun _ => ?_
    · refine (Triple.pure ()).weaken (fun c h => ⟨fun m found => ?_, h⟩) (fun _ _ h => h) fun _ h => h
      simp only [harnessVersions, found, Except.ok.injEq] at read
      subst read
      simp only [Bool.and_eq_true, beq_iff_eq, List.length_map] at one
      obtain ⟨row, here⟩ := List.exists_mem_of_length_pos (by omega : 0 <
        (m.rows.filter fun row => m.decl.get row "singleton" == .integer 1).length)
      obtain ⟨member, own⟩ := List.mem_filter.mp here
      exact ⟨row, member, by simpa using own⟩
    · exact (Triple.fail _).weaken Idle.left (fun _ _ h => h) fun _ h => h
  · refine (Triple.pure ()).weaken (fun c h => ⟨fun m found => ?_, h⟩) (fun _ _ h => h) fun _ h => h
    cases answer
    simp only [Bool.or_eq_false_iff] at unknown
    rw [Catalog.hasTable_iff.mpr ⟨m, found⟩] at unknown
    exact absurd unknown.1.1.1 (by decide)

theorem selectColumns_tasks (h : selectColumns baseColumns file = .ok ()) :
    ∃ u, file.table? "tasks" = some u := by
  cases found : file.table? "tasks" with
  | some u => exact ⟨u, rfl⟩
  | none =>
    simp only [baseColumns, selectColumns, found, reduceCtorEq] at h

/-- What `Open` has done when it succeeds. -/
structure Opened (fire : Fire) (file db : Catalog) : Prop where
  tasks : ∃ u, file.table? "tasks" = some u
  marked : Marked file
  ran : ∃ mid, MigratedTo fire file mid ∧ runAll fire true journalStatements mid = .ok db

/-- **`Open` on a database with a `cmp_turns`.** -/
theorem openEngine_triple (turns : file.hasTable "cmp_turns" = true) :
    Triple (Idle file false) (openEngine world)
      (fun _ c => Opened world.fire file c.file)
      (fun c => c.file = file ∨ MigratedTo world.fire file c.file) := by
  unfold openEngine
  have left : ∀ c : Connection, Left file c →
      c.file = file ∨ MigratedTo world.fire file c.file := fun _ h => .inl h
  have idle : ∀ {on} (c : Connection), Idle file on c →
      c.file = file ∨ MigratedTo world.fire file c.file := fun c h => left c h.left
  refine Triple.bind (Triple.sql Triple.exec_setting idle) fun _ => ?_
  refine Triple.bind (Triple.sql (Triple.script_one Triple.exec_foreignKeys) idle) fun _ => ?_
  refine Triple.bind (Triple.sql Triple.query_idle idle) fun version => ?_
  refine Triple.of_and fun answer => ?_
  cases answer
  refine Triple.bind (Triple.sql Triple.query_idle idle) fun tables => ?_
  refine Triple.of_and fun answer => ?_
  have some_ : tables > 0 := by
    cases answer
    obtain ⟨t, member, own⟩ := List.any_eq_true.mp turns
    refine List.length_pos_of_mem (a := t) (List.mem_filter.mpr ⟨member, ?_⟩)
    rw [show t.name = "cmp_turns" by simpa using own]
    decide +kernel
  refine Triple.ite (fun _ => ?_) fun supported => ?_
  · exact (Triple.fail _).weaken idle (fun _ _ h => h) fun _ h => h
  have current : (file.userVersion == 0) = false := by
    simp only [Bool.or_eq_false_iff, Bool.and_eq_false_iff, decide_eq_false_iff_not] at supported
    exact supported.1.resolve_right fun none_ => none_ some_
  unfold createBase
  rw [current]
  have same : Triple (Idle file true) (pure () : Program OpenError Unit) (fun _ => Idle file true)
      (fun c => c.file = file ∨ MigratedTo world.fire file c.file) := fun _ h => h
  refine Triple.bind same fun _ => ?_
  refine Triple.bind (Triple.sql Triple.query_idle idle) fun _ => Triple.of_and fun base => ?_
  refine Triple.bind (Triple.sql Triple.query_idle idle) fun _ => Triple.of_and fun _ => ?_
  refine Triple.bind (checkHarness_triple.weaken (fun _ h => h) (fun _ _ h => h) left) fun _ => ?_
  refine Triple.of_and fun marked => ?_
  refine Triple.bind (Triple.sql (Triple.script_two Triple.exec_setting Triple.exec_setting) idle)
    fun _ => ?_
  refine Triple.bind migrateTurnRequestID_triple fun _ => ?_
  refine Triple.ex fun mid => Triple.of_and fun migrated => ?_
  refine (Triple.sql Triple.script_transaction ?_).weaken (fun _ h => h) ?_ fun _ h => h
  · rintro c rfl
    exact .inr migrated
  · rintro _ c ⟨db, run, rfl, _⟩
    exact ⟨selectColumns_tasks base, marked, mid, migrated, run⟩

end Programs

/-! ## The journal script -/

instance : DecidablePred JournalWritten := fun n =>
  inferInstanceAs (Decidable (n = "cmp_harness_meta" ∨ n = "cmp_scope_epochs"))

/-- The statements of `journal.sql` before its last one. -/
def journalAdditions : List Stmt := journalStatements.dropLast

theorem journalStatements_eq : journalStatements = journalAdditions ++
    [.update "cmp_harness_meta" "version" (.integer 4) "singleton" (.integer 1)] := by
  decide +kernel

theorem journalAdditions_additive : ∀ s ∈ journalAdditions, s.additive = true := by decide +kernel

theorem journalAdditions_fits : ∀ s ∈ journalAdditions, s.Fits JournalWritten := by decide +kernel

/-- What the journal script relies on. -/
structure Ready (c : Catalog) : Prop where
  quiet : ∀ u ∈ c.triggers, ¬ JournalWritten u.table
  harness : ∃ m, c.table? "cmp_harness_meta" = some m ∧ m.decl = harnessMetaDecl
  epochs : ∀ e, c.table? "cmp_scope_epochs" = some e → e.decl = scopeEpochsDecl
  marked : Marked c

/-- The table with the version of the journal set. -/
def versioned (m : Table) : Table :=
  m.update "version" (.integer 4) "singleton" (.integer 1)

/-- What the journal script makes of a database. -/
structure Journaled (c c' : Catalog) : Prop where
  tables : ∀ n u, ¬ JournalWritten n → c.table? n = some u → c'.table? n = some u
  harness : ∀ m, c.table? "cmp_harness_meta" = some m →
    c'.table? "cmp_harness_meta" = some (versioned m)
  epochs : ∀ e, c.table? "cmp_scope_epochs" = some e → ∃ e' new,
    c'.table? "cmp_scope_epochs" = some e' ∧ e'.decl = e.decl ∧ e'.rows = e.rows ++ new ∧
      ∀ row ∈ new, Made c' journalAdditions "cmp_scope_epochs" e.decl row ∧
        c.refusal e e.rows row = none
  indexes : ∀ i ∈ c.indexes, i ∈ c'.indexes
  triggers : ∀ u ∈ c.triggers, u ∈ c'.triggers
  made : ∀ u ∈ c'.triggers, u ∈ c.triggers ∨ ∃ b, Stmt.createTrigger u b ∈ journalAdditions
  done : ∀ u b, Stmt.createTrigger u b ∈ journalAdditions → c'.hasTrigger u.name = true
  sound : c.violations = [] → c'.violations = []
  again : ∀ fire c'', runAll fire true journalStatements c' = .ok c'' → c'' = c'

section Journal

variable {fire : Fire} {c c' : Catalog}

theorem Ready.opens (h : Ready c) : c.Open JournalWritten := by
  refine ⟨h.quiet, fun n t own found => ?_⟩
  rcases own with rfl | rfl
  · obtain ⟨m, here, decl⟩ := h.harness
    rw [here] at found
    cases found
    rw [decl]
    decide
  · rw [h.epochs t found]
    decide

/-- Setting the version of the one row again changes nothing, and its key stays. -/
theorem change_version {m : Table} (decl : m.decl = harnessMetaDecl) (row : Row) :
    m.decl.get (m.change "version" (.integer 4) "singleton" (.integer 1) row) "singleton" =
      m.decl.get row "singleton" := by
  unfold Table.change
  split
  · rw [decl]
    rfl
  · rfl

theorem change_change {m : Table} (decl : m.decl = harnessMetaDecl) (row : Row) :
    m.change "version" (.integer 4) "singleton" (.integer 1)
      (m.change "version" (.integer 4) "singleton" (.integer 1) row) =
      m.change "version" (.integer 4) "singleton" (.integer 1) row := by
  have key := change_version decl row
  unfold Table.change at key ⊢
  split
  · rename_i hit
    rw [if_pos hit] at key
    rw [if_pos (by rw [key]; exact hit), decl]
    rfl
  · rfl

theorem versioned_versioned {m : Table} (decl : m.decl = harnessMetaDecl) :
    versioned (versioned m) = versioned m := by
  refine Catalog.table_eq rfl rfl ?_
  show (m.rows.map _).map _ = m.rows.map _
  rw [List.map_map]
  exact List.map_congr_left fun row _ => change_change decl row

/-- The statements that insert into a table. -/
def insertsInto (n : String) : Stmt → Bool
  | .insert _ m _ _ _ => m == n
  | _ => false

theorem journal_inserts_harness :
    journalAdditions.filter (insertsInto "cmp_harness_meta") =
      [.insert true "cmp_harness_meta" ["singleton", "version"]
        [.const (.integer 1), .const (.integer 1)] none] := by decide +kernel

/-- The row `journal.sql` inserts has the key of a version row. -/
theorem harness_taken {m : Table} {rows : List Row} (decl : m.decl = harnessMetaDecl)
    {values : List Expr} {columns : List String} {source : Option String} {list : List Row}
    (inside : Stmt.insert true "cmp_harness_meta" columns values source ∈ journalAdditions)
    (got : c.select values source = .ok list) {v : Row} (member : v ∈ list)
    (marked : ∃ row ∈ rows, m.decl.get row "singleton" = .integer 1) :
    ∃ row ∈ rows, m.decl.pick row ["singleton"] =
      m.decl.pick (m.decl.build columns v) ["singleton"] := by
  have only : _ ∈ journalAdditions.filter (insertsInto "cmp_harness_meta") :=
    List.mem_filter.mpr ⟨inside, beq_self_eq_true _⟩
  rw [journal_inserts_harness, List.mem_singleton] at only
  cases only
  cases got
  cases List.mem_singleton.mp member
  obtain ⟨row, there, own⟩ := marked
  refine ⟨row, there, ?_⟩
  rw [show m.decl.pick row ["singleton"] = [m.decl.get row "singleton"] from rfl, own, decl]
  rfl

theorem harness_key {m : Table} (decl : m.decl = harnessMetaDecl) :
    ["singleton"] ∈ m.decl.keys ∧ m.decl.Solid ["singleton"] := by
  rw [decl]
  decide

/-- No version row was inserted where there was one. -/
theorem harness_unchanged {m mid : Table} (decl : m.decl = harnessMetaDecl)
    (marked : ∃ row ∈ m.rows, m.decl.get row "singleton" = .integer 1) {new : List Row}
    (made : ∀ row ∈ new, Made c journalAdditions "cmp_harness_meta" m.decl row ∧
      c'.refusal m m.rows row = none) (rows : mid.rows = m.rows ++ new) : mid.rows = m.rows := by
  have none_ : new = [] := by
    refine List.eq_nil_iff_forall_not_mem.mpr fun r member => ?_
    obtain ⟨⟨columns, values, source, list, inside, got, v, here, rfl⟩, free⟩ := made r member
    obtain ⟨key, solid⟩ := harness_key decl
    exact Catalog.refused_of_key key solid (harness_taken decl inside got here marked) free
  rw [rows, none_, List.append_nil]

theorem versioned_name {m : Table} {n : String} (found : c.table? n = some m) :
    (versioned m).name = n := by
  show m.name = n
  exact Catalog.table?_name found

theorem select_versioned {m : Table} {values : List Expr} {source : Option String} {rows : List Row}
    (found : c.table? "cmp_harness_meta" = some m) (apart : ∀ s ∈ source, ¬ JournalWritten s)
    (got : c.select values source = .ok rows) :
    (c.setTable (versioned m)).select values source = .ok rows := by
  cases source with
  | none => exact got
  | some s =>
    have other : s ≠ (versioned m).name := fun same =>
      apart s rfl (.inl (same.trans (versioned_name found)))
    simp only [Catalog.select] at got ⊢
    rw [Catalog.table?_setTable_ne other]
    exact got

/-- What is there after the additions is there after the version is set. -/
theorem done_versioned {m : Table} {s : Stmt} (inside : s ∈ journalAdditions)
    (found : c.table? "cmp_harness_meta" = some m) (decl : m.decl = harnessMetaDecl)
    (marked : ∃ row ∈ m.rows, m.decl.get row "singleton" = .integer 1) (done : s.Done c) :
    s.Done (c.setTable (versioned m)) := by
  have fits := journalAdditions_fits s inside
  have own := versioned_name found
  have others : ∀ n, n ≠ "cmp_harness_meta" → (c.setTable (versioned m)).table? n = c.table? n :=
    fun n other => Catalog.table?_setTable_ne (by rw [own]; exact other)
  have here := Catalog.table?_setTable_self found own
  cases s with
  | createTable n d b =>
    refine done.imp_left fun there => ?_
    rw [Catalog.hasTable_iff] at there ⊢
    by_cases harness : n = "cmp_harness_meta"
    · exact ⟨_, harness ▸ here⟩
    · rw [others n harness]
      exact there
  | createIndex i b => exact done
  | createTrigger t b => exact done
  | insert b n columns values source =>
    obtain ⟨t, rows, found', got, refused⟩ := done
    have got' := select_versioned found fits.2 got
    by_cases harness : n = "cmp_harness_meta"
    · subst harness
      have ignore : b = true := journalAdditions_additive _ inside
      subst ignore
      refine ⟨versioned m, rows, here, got', fun v member => ?_⟩
      obtain ⟨row, there, one⟩ := marked
      obtain ⟨key, solid⟩ := harness_key decl
      have still := harness_taken decl inside got member
        ⟨_, List.mem_map_of_mem there, (change_version decl row).trans one⟩
      exact Catalog.refused_of_key key solid still
    · exact ⟨t, rows, (others n harness).trans found', got', refused⟩
  | _ => exact done

/-- **The journal script.** -/
theorem journal_run (ready : Ready c) (run : runAll fire true journalStatements c = .ok c') :
    Journaled c c' := by
  rw [journalStatements_eq] at run
  obtain ⟨mid, adds, last⟩ := runAll_append.mp run
  have advanced := runAll_additive journalAdditions_additive journalAdditions_fits ready.opens adds
  obtain ⟨_, update, nothing⟩ := runAll_cons.mp last
  cases nothing
  obtain ⟨m₁, found₁, rfl, kept⟩ :=
    Stmt.run_update (advanced.opens.unarmed (.inl rfl) .update) update
  obtain ⟨m, found, decl⟩ := ready.harness
  obtain ⟨_, same, decl₁, _⟩ := advanced.grows.tables _ m found
  rw [found₁] at same
  cases same
  obtain ⟨row, there, one⟩ := ready.marked m found
  -- the version row was there, so none was inserted
  have unchanged : m₁ = m := by
    obtain ⟨new, rows, made⟩ := advanced.added _ m m₁ found found₁
    exact Catalog.table_eq ((Catalog.table?_name found₁).trans (Catalog.table?_name found).symm)
      decl₁ (harness_unchanged decl ⟨row, there, one⟩ made rows)
  subst unchanged
  have own := versioned_name found
  have others : ∀ n, n ≠ "cmp_harness_meta" → (mid.setTable (versioned m₁)).table? n = mid.table? n :=
    fun n other => Catalog.table?_setTable_ne (by rw [own]; exact other)
  have here := Catalog.table?_setTable_self found₁ own
  have settled : ∀ s ∈ journalAdditions, s.Done (mid.setTable (versioned m₁)) := fun s inside =>
    done_versioned inside found₁ decl ⟨row, there, one⟩ (advanced.done s inside)
  change runAll fire true _ _ = .ok (mid.setTable (versioned m₁)) at run
  change ∀ _, ∀ v ∈ (mid.setTable (versioned m₁)).violations, v ∈ mid.violations at kept
  show Journaled c (mid.setTable (versioned m₁))
  refine ⟨fun n u other known => ?_, fun u known => ?_, fun e known => ?_, advanced.grows.indexes,
    advanced.grows.triggers, advanced.triggers, fun u b inside => settled _ inside, fun sound => ?_, ?_⟩
  · obtain ⟨u', known', _, _, same⟩ := advanced.grows.tables n u known
    rw [others n fun same => other (.inl same), known', same other]
  · rw [found] at known
    cases known
    exact here
  · obtain ⟨e', known', decl', _, _⟩ := advanced.grows.tables _ e known
    obtain ⟨new, rows, made⟩ := advanced.added _ e e' known known'
    refine ⟨e', new, (others _ (by decide)).trans known', decl', rows, fun r member => ?_⟩
    obtain ⟨⟨columns, values, source, list, inside, got, v, here, same⟩, free⟩ := made r member
    have got' := select_versioned found₁ (journalAdditions_fits _ inside).2 got
    exact ⟨⟨columns, values, source, list, inside, got', v, here, same⟩, free⟩
  · refine List.eq_nil_iff_forall_not_mem.mpr fun v member => ?_
    have before := advanced.kept rfl v (kept rfl v member)
    rw [sound] at before
    cases before
  · intro fire' c'' again
    rw [journalStatements_eq] at again
    obtain ⟨mid', adds', last'⟩ := runAll_append.mp again
    have opens : (mid.setTable (versioned m₁)).Open JournalWritten := by
      refine ⟨advanced.opens.quiet, fun n t written known => ?_⟩
      by_cases harness : n = "cmp_harness_meta"
      · subst harness
        rw [here] at known
        cases known
        show ∃ key ∈ m₁.decl.keys, m₁.decl.Solid key
        rw [decl]
        decide
      · exact advanced.opens.keyed n t written ((others n harness).symm.trans known)
    obtain rfl := runAll_settled journalAdditions_additive journalAdditions_fits opens settled adds'
    obtain ⟨_, update', nothing'⟩ := runAll_cons.mp last'
    cases nothing'
    obtain ⟨m', found', rfl, _⟩ := Stmt.run_update (opens.unarmed (.inl rfl) .update) update'
    rw [here] at found'
    cases found'
    show (mid.setTable (versioned m₁)).setTable (versioned (versioned m₁)) = _
    rw [versioned_versioned decl]
    exact Catalog.setTable_self (own.symm ▸ here)

end Journal

/-! ## Opening an old database -/

/-- `Open` has completed the migration. -/
structure Migrated (t : Table) (file after : Catalog) : Prop where
  turns : ∃ t', after.table? "cmp_turns" = some t' ∧ t'.decl = turnsDecl true ∧ t'.rows = t.rows
  others : ∀ n u, n ≠ "cmp_turns" → n ≠ cmpTurnsRebuildTable → ¬ JournalWritten n →
    file.table? n = some u → ∃ u', after.table? n = some u' ∧ u'.rows = u.rows
  harness : ∃ m m', file.table? "cmp_harness_meta" = some m ∧
    after.table? "cmp_harness_meta" = some m' ∧
    m'.rows = m.rows.map (m.change "version" (.integer 4) "singleton" (.integer 1))
  epochs : ∀ e, file.table? "cmp_scope_epochs" = some e → ∃ e' new,
    after.table? "cmp_scope_epochs" = some e' ∧ e'.rows = e.rows ++ new ∧
      ∀ row ∈ new, ∃ id, row = [id, .integer 0] ∧
        (id = .integer 0 ∨ ∃ u old, file.table? "tasks" = some u ∧ old ∈ u.rows ∧
          id = u.decl.get old "id") ∧
        ∀ old ∈ e.rows, e.decl.get old "task_id" ≠ id
  index : onePendingIndex ∈ after.indexes
  guards : retiredGuard ∈ after.triggers ∧ retiredUpdateGuard ∈ after.triggers
  sound : after.violations = []

section Migrated

variable {file mid after : Catalog} {t : Table}

theorem legacy_nullable (legacy : Legacy t file) : Nullable file := by
  unfold Nullable turnsColumn
  rw [legacy.turns, Option.map_some, Option.getD_some, legacy.decl]
  decide

theorem not_nullable (turns : ∃ t', after.table? "cmp_turns" = some t' ∧ t'.decl = turnsDecl true) :
    ¬ Nullable after := by
  obtain ⟨t', found, decl⟩ := turns
  unfold Nullable turnsColumn
  rw [found, Option.map_some, Option.getD_some, decl]
  decide

/-- What the rebuild leaves of the other tables. -/
theorem Rebuilt.table (rebuilt : Rebuilt t file mid) {n : String} {u : Table}
    (ours : n ≠ "cmp_turns") (copy : n ≠ cmpTurnsRebuildTable) (found : file.table? n = some u) :
    mid.table? n = some (u.repoint cmpTurnsRebuildTable "cmp_turns") := by
  rw [rebuilt.others n ours copy, found]
  rfl

theorem Rebuilt.ready (legacy : Legacy t file) (marked : Marked file) (rebuilt : Rebuilt t file mid) :
    Ready mid := by
  obtain ⟨m, found, decl⟩ := legacy.harness
  have there := rebuilt.table (by decide) (by decide) found
  refine ⟨fun u member => ?_, ⟨_, there, ?_⟩, fun e known => ?_, fun m' known => ?_⟩
  · rcases rebuilt.triggers u member with rfl | rfl | ⟨old, _⟩
    · decide
    · decide
    · exact legacy.quiet u old
  · show m.decl.repoint _ _ = _
    rw [decl]
    rfl
  · rw [rebuilt.others _ (by decide) (by decide)] at known
    obtain ⟨old, before, rfl⟩ := Option.map_eq_some_iff.mp known
    show old.decl.repoint _ _ = _
    rw [legacy.epochs old before]
    rfl
  · rw [there] at known
    cases known
    obtain ⟨row, member, one⟩ := marked m found
    exact ⟨row, member, one⟩

/-- The guards the journal script makes are its own. -/
theorem guard_of_name {guard : Trigger} (journaled : Journaled mid after)
    (there : .createTrigger guard true ∈ journalAdditions)
    (only : ∀ u b, Stmt.createTrigger u b ∈ journalAdditions → u.name = guard.name → u = guard)
    (before : ∀ u ∈ mid.triggers, u.name = guard.name → u = guard) : guard ∈ after.triggers := by
  obtain ⟨u, member, named⟩ := List.any_eq_true.mp (journaled.done guard true there)
  have named : u.name = guard.name := by simpa using named
  have same : u = guard := by
    rcases journaled.made u member with old | ⟨b, made⟩
    · exact before u old named
    · exact only u b made named
  exact same ▸ member

/-- The triggers the journal script makes. -/
def createdTrigger : Stmt → Option Trigger
  | .createTrigger u _ => some u
  | _ => none

theorem journal_triggers : ∀ u ∈ journalAdditions.filterMap createdTrigger,
    (u.name = retiredGuard.name → u = retiredGuard) ∧
      (u.name = retiredUpdateGuard.name → u = retiredUpdateGuard) := by decide +kernel

theorem journal_trigger {u : Trigger} {b : Bool} (h : Stmt.createTrigger u b ∈ journalAdditions) :
    (u.name = retiredGuard.name → u = retiredGuard) ∧
      (u.name = retiredUpdateGuard.name → u = retiredUpdateGuard) :=
  journal_triggers u (List.mem_filterMap.mpr ⟨_, h, rfl⟩)

theorem Rebuilt.guard_names (legacy : Legacy t file) (rebuilt : Rebuilt t file mid) :
    ∀ u ∈ mid.triggers, (u.name = retiredGuard.name → u = retiredGuard) ∧
      (u.name = retiredUpdateGuard.name → u = retiredUpdateGuard) := by
  intro u member
  rcases rebuilt.triggers u member with rfl | rfl | ⟨old, other, _⟩
  · exact ⟨fun _ => rfl, fun same => absurd same (by decide)⟩
  · exact ⟨fun same => absurd same (by decide), fun _ => rfl⟩
  · exact ⟨fun named => absurd (legacy.guards u old (.inl named)) other,
      fun named => absurd (legacy.guards u old (.inr named)) other⟩

theorem journal_inserts_epochs :
    journalAdditions.filter (insertsInto "cmp_scope_epochs") =
      [.insert true "cmp_scope_epochs" ["task_id", "epoch"]
          [.const (.integer 0), .const (.integer 0)] none,
        .insert true "cmp_scope_epochs" ["task_id", "epoch"] [.column "id", .const (.integer 0)]
          (some "tasks")] := by decide +kernel

theorem build_epoch (id : Value) :
    scopeEpochsDecl.build ["task_id", "epoch"] [id, .integer 0] = [id, .integer 0] := rfl

/-- A new clock stands at zero, for the whole database or for a task. -/
theorem made_epoch {row : Row} (tasks : ∀ u, after.table? "tasks" = some u →
      ∃ u', file.table? "tasks" = some u' ∧ u'.rows = u.rows ∧ u'.decl.names = u.decl.names)
    (made : Made after journalAdditions "cmp_scope_epochs" scopeEpochsDecl row) :
    ∃ id, row = [id, .integer 0] ∧ (id = .integer 0 ∨
      ∃ u old, file.table? "tasks" = some u ∧ old ∈ u.rows ∧ id = u.decl.get old "id") := by
  obtain ⟨columns, values, source, list, inside, got, v, here, rfl⟩ := made
  have only : _ ∈ journalAdditions.filter (insertsInto "cmp_scope_epochs") :=
    List.mem_filter.mpr ⟨inside, beq_self_eq_true _⟩
  rw [journal_inserts_epochs] at only
  rcases List.mem_cons.mp only with whole | task
  · cases whole
    cases got
    cases List.mem_singleton.mp here
    exact ⟨.integer 0, rfl, .inl rfl⟩
  · cases List.mem_singleton.mp task
    cases found : after.table? "tasks" with
    | none =>
      simp only [Catalog.select, found] at got
      cases got
    | some u =>
      simp only [Catalog.select, found, Except.ok.injEq] at got
      subst got
      obtain ⟨old, member, rfl⟩ := List.mem_map.mp here
      obtain ⟨u', known, rows, names⟩ := tasks u found
      refine ⟨u.decl.get old "id", rfl, .inr ⟨u', old, known, by rw [rows]; exact member, ?_⟩⟩
      unfold Decl.get
      rw [names]

/-- A clock is new when no constraint keeps it out. -/
theorem fresh_epoch {e : Table} {id : Value} (decl : e.decl = scopeEpochsDecl)
    (free : mid.refusal e e.rows [id, .integer 0] = none) :
    ∀ old ∈ e.rows, e.decl.get old "task_id" ≠ id := by
  obtain ⟨solid, _, keys, _⟩ := Catalog.refusal_none.mp free
  rw [decl] at solid keys ⊢
  have some_ : id ≠ .null := solid (rowidColumn "task_id") (by decide) rfl
  have own := keys ["task_id"] (by decide)
  intro old member same
  simp only [Decl.keyFree, Bool.or_eq_true, Bool.not_eq_true', List.any_eq_false, beq_iff_eq] at own
  rcases own with null | other
  · rw [List.contains_iff_mem] at null
    exact some_ (List.mem_singleton.mp null).symm
  · refine other old member ?_
    show [_] = [_]
    rw [same]
    rfl

theorem Rebuilt.migrated (legacy : Legacy t file) (tasks : ∃ u, file.table? "tasks" = some u)
    (rebuilt : Rebuilt t file mid) (journaled : Journaled mid after) : Migrated t file after := by
  have guards : retiredGuard ∈ after.triggers ∧ retiredUpdateGuard ∈ after.triggers := by
    have names := rebuilt.guard_names legacy
    refine ⟨guard_of_name journaled (by decide +kernel) (fun u b made => (journal_trigger made).1)
      fun u member => (names u member).1, ?_⟩
    exact guard_of_name journaled (by decide +kernel) (fun u b made => (journal_trigger made).2)
      fun u member => (names u member).2
  refine ⟨?_, fun n u ours copy written found => ?_, ?_, fun e found => ?_, ?_, guards,
    journaled.sound rebuilt.sound⟩
  · obtain ⟨t', found, decl, rows⟩ := rebuilt.turns
    exact ⟨t', journaled.tables _ t' (by decide) found, decl, rows⟩
  · exact ⟨_, journaled.tables n _ written (rebuilt.table ours copy found), rfl⟩
  · obtain ⟨m, found, _⟩ := legacy.harness
    exact ⟨m, _, found, journaled.harness _ (rebuilt.table (by decide) (by decide) found), rfl⟩
  · have decl := legacy.epochs e found
    have there := rebuilt.table (by decide) (by decide) found
    have decl' : (e.repoint cmpTurnsRebuildTable "cmp_turns").decl = scopeEpochsDecl := by
      show e.decl.repoint _ _ = _
      rw [decl]
      rfl
    obtain ⟨e', new, found', _, rows, made⟩ := journaled.epochs _ there
    refine ⟨e', new, found', rows, fun row member => ?_⟩
    obtain ⟨source, free⟩ := made row member
    rw [decl'] at source
    have known : ∀ u, after.table? "tasks" = some u →
        ∃ u', file.table? "tasks" = some u' ∧ u'.rows = u.rows ∧ u'.decl.names = u.decl.names := by
      obtain ⟨u', here⟩ := tasks
      have kept := journaled.tables _ _ (by decide) (rebuilt.table (by decide) (by decide) here)
      intro u same
      rw [kept] at same
      cases same
      exact ⟨u', here, rfl, rfl⟩
    obtain ⟨id, rfl, whose⟩ := made_epoch known source
    have fresh := fresh_epoch decl' free
    exact ⟨id, rfl, whose, fun old there => fresh old there⟩
  · exact journaled.indexes _ rebuilt.index

end Migrated

/-- What `Open` does to an old database: it leaves it, or leaves it rebuilt, or completes the
    migration for good. -/
structure OpensSafely (world : World) (t : Table) (file : Catalog) : Prop where
  failed : ∀ e after, openFile world file = (.error e, after) → after = file ∨ Rebuilt t file after
  opened : ∀ after, openFile world file = (.ok (), after) → Migrated t file after
  again : ∀ after, openFile world file = (.ok (), after) →
    ∀ world' : World, (openFile world' after).2 = after

section OpenFile

variable {world : World} {file after : Catalog}

theorem openFile_error {e : OpenError} (turns : file.hasTable "cmp_turns" = true)
    (run : openFile world file = (.error e, after)) :
    after = file ∨ MigratedTo world.fire file after := by
  obtain ⟨failed, rfl⟩ := Prod.mk.inj run
  exact (openEngine_triple turns).of_error ⟨rfl, rfl, rfl⟩ failed

theorem openFile_ok (turns : file.hasTable "cmp_turns" = true)
    (run : openFile world file = (.ok (), after)) : Opened world.fire file after := by
  obtain ⟨opened, rfl⟩ := Prod.mk.inj run
  exact (openEngine_triple turns).of_ok ⟨rfl, rfl, rfl⟩ opened

/-- A database that needs no rebuild and on which the journal script settles is left alone. -/
theorem openFile_settled (turns : file.hasTable "cmp_turns" = true) (fixed : ¬ Nullable file)
    (settled : ∀ fire c, runAll fire true journalStatements file = .ok c → c = file) :
    (openFile world file).2 = file := by
  have stays : ∀ db, MigratedTo world.fire file db → db = file := by
    rintro db (⟨_, same⟩ | ⟨nullable, _⟩)
    · exact same
    · exact absurd nullable fixed
  cases run : openFile world file with
  | mk result last =>
    cases result with
    | error e => exact (openFile_error turns run).elim id (stays last)
    | ok u =>
      obtain ⟨_, _, mid, migrated, ran⟩ := openFile_ok turns run
      cases stays mid migrated
      exact settled world.fire last ran

end OpenFile

/-- **The migration.** Whatever statement fails for whatever reason, `Open` on an old database
    leaves it, or leaves it with the rebuild committed, or completes the migration, and a completed
    one is not changed by another `Open`. -/
theorem open_migrates (world : World) {t : Table} {file : Catalog} (legacy : Legacy t file) :
    OpensSafely world t file := by
  have turns := Catalog.hasTable_iff.mpr ⟨t, legacy.turns⟩
  have rebuilt : ∀ db, MigratedTo world.fire file db → Rebuilt t file db := by
    rintro db (⟨other, _⟩ | ⟨_, ran⟩)
    · exact absurd (legacy_nullable legacy) other
    · exact ran.rebuilt legacy
  have completed : ∀ after, openFile world file = (.ok (), after) → Migrated t file after ∧
      ∀ fire c, runAll fire true journalStatements after = .ok c → c = after := by
    intro after run
    obtain ⟨tasks, marked, mid, migrated, ran⟩ := openFile_ok turns run
    have made := rebuilt mid migrated
    have journaled := journal_run (made.ready legacy marked) ran
    exact ⟨made.migrated legacy tasks journaled, fun fire c again => journaled.again fire c again⟩
  refine ⟨fun e after run => (openFile_error turns run).imp_right (rebuilt after),
    fun after run => (completed after run).1, fun after run world' => ?_⟩
  obtain ⟨done, settled⟩ := completed after run
  obtain ⟨t', found, decl, _⟩ := done.turns
  exact openFile_settled (Catalog.hasTable_iff.mpr ⟨t', found⟩) (not_nullable ⟨t', found, decl⟩)
    settled

/-! ### A database of the first schema -/

/-- No statement fails, and no trigger has anything to do. -/
def World.calm : World := ⟨fun _ => none, fun _ _ _ c => .ok c⟩

/-- The statement with this number fails. -/
def World.failing (n : Nat) : World := { World.calm with faults := fun k => if k = n then some 10 else none }

def Command.stmt? : Command → Option Stmt
  | .stmt s => some s
  | _ => none

def str (s : String) : Value := .text (Text.lit s)

def schemaOneTurns : Table where
  name := "cmp_turns"
  decl := turnsDecl false
  rows := [[str "r1", .integer 1, str "f", str "{}", str "pending", .integer 1, .integer 1, str "{}",
    .null, .null, str "2020-01-01T00:00:00Z", str "2020-01-01T00:00:00Z"]]
  fits := by decide

/-- One task, with a pending turn, and the journal of the first schema. -/
def schemaOneStatements : List Stmt :=
  baseSchema.filterMap Command.stmt? ++ [
  .insert false "tasks" ["id", "title", "status", "snapshot", "revision", "created_at"]
    [.const (.integer 1), .const (str "t"), .const (str "open"), .const (str "{}"),
      .const (.integer 1), .const (str "2020-01-01T00:00:00Z")] none,
  .createTable "cmp_harness_meta" harnessMetaDecl false,
  .insert false "cmp_harness_meta" ["singleton", "version"]
    [.const (.integer 1), .const (.integer 1)] none,
  .createTable "cmp_turns" (turnsDecl false) false,
  .createIndex onePendingIndex false,
  .insert false "cmp_turns" cmpTurnsColumns (schemaOneTurns.rows.flatten.map .const) none]

def schemaOne : Catalog :=
  match runAll World.calm.fire true schemaOneStatements {} with
  | .ok c => { c with userVersion := 1 }
  | .error _ => {}

/-- The versions of the journal. -/
def versionRows (c : Catalog) : Option (List Row) :=
  (c.table? "cmp_harness_meta").map Table.rows

theorem schemaOne_legacy : Legacy schemaOneTurns schemaOne where
  turns := by decide +kernel
  decl := rfl
  anchored := by decide +kernel
  quiet := by decide +kernel
  guards := by decide +kernel
  harness := by
    have found : (schemaOne.table? "cmp_harness_meta").any (·.decl == harnessMetaDecl) = true := by
      decide +kernel
    obtain ⟨m, known, decl⟩ := Option.any_eq_true _ _ |>.mp found
    exact ⟨m, known, by simpa using decl⟩
  epochs := by
    have absent : schemaOne.table? "cmp_scope_epochs" = none := by decide +kernel
    intro e found
    rw [absent] at found
    cases found

theorem open_migrates_schemaOne :
    (openFile World.calm schemaOne).1 = .ok () ∧ OpensSafely World.calm schemaOneTurns schemaOne :=
  ⟨by decide +kernel, open_migrates World.calm schemaOne_legacy⟩

/-- `Open` sets the version of the journal, and where `journal.sql` cannot begin it fails with the
    rebuild committed. -/
theorem open_writes_version :
    Legacy schemaOneTurns schemaOne ∧
      (openFile World.calm schemaOne).1 = .ok () ∧
      versionRows schemaOne = some [[.integer 1, .integer 1]] ∧
      versionRows (openFile World.calm schemaOne).2 = some [[.integer 1, .integer 4]] ∧
      (openFile (World.failing 26) schemaOne).1 = .error (.sql (.fault 10)) ∧
      (openFile (World.failing 26) schemaOne).2 ≠ schemaOne :=
  ⟨schemaOne_legacy, by decide +kernel, by decide +kernel, by decide +kernel, by decide +kernel,
    by decide +kernel⟩

end Cmpath
