import Cmpath.Lib.Catalog

/-!
# Scripts that can be run again

A script of `CREATE … IF NOT EXISTS` and `INSERT OR IGNORE` statements only adds to a database, and
once it has run, running it again changes nothing.
-/

namespace Lib.Sql

/-! ## References -/

section References

variable {c : Catalog} {name : String} {d : Decl}

theorem violations_mem {v : String × Row × ForeignKey} : v ∈ c.violations ↔
    ∃ t ∈ c.tables, ∃ row ∈ t.rows, ∃ k ∈ t.decl.foreignKeys, c.satisfied t.decl row k = false ∧
      v = (t.name, row, k) := by
  simp only [Catalog.violations, List.mem_flatMap, List.mem_map, List.mem_filter]
  constructor
  · rintro ⟨t, here, row, there, k, ⟨key, broken⟩, rfl⟩
    exact ⟨t, here, row, there, k, key, by simpa using broken, rfl⟩
  · rintro ⟨t, here, row, there, k, key, broken, rfl⟩
    exact ⟨t, here, row, there, k, ⟨key, by simpa using broken⟩, rfl⟩

/-- A new table takes no row's parent away. -/
theorem violations_createTable (absent : c.table? name = none) {v : String × Row × ForeignKey}
    (h : v ∈ (c.createTable name d).violations) : v ∈ c.violations := by
  obtain ⟨t, here, row, there, k, key, broken, rfl⟩ := violations_mem.mp h
  rcases List.mem_append.mp here with old | new
  · refine violations_mem.mpr ⟨t, old, row, there, k, key, ?_, rfl⟩
    unfold Catalog.satisfied at broken ⊢
    rw [Catalog.table?_createTable absent] at broken
    by_cases own : k.parent = name
    · rw [own, absent]
      rw [if_pos own] at broken
      simpa using broken
    · rw [if_neg own] at broken
      exact broken
  · cases List.mem_singleton.mp new
    cases there

end References

/-! ## Growing -/

/-- A database has all of another one; only the tables `written` have more rows. -/
structure Catalog.Grows (written : String → Prop) (c c' : Catalog) : Prop where
  tables : ∀ n t, c.table? n = some t → ∃ t', c'.table? n = some t' ∧ t'.decl = t.decl ∧
    t.rows <+: t'.rows ∧ (¬ written n → t' = t)
  indexes : ∀ i ∈ c.indexes, i ∈ c'.indexes
  triggers : ∀ t ∈ c.triggers, t ∈ c'.triggers
  views : c'.views = c.views

namespace Catalog.Grows

variable {written : String → Prop} {c c₁ c' : Catalog}

theorem refl : Grows written c c :=
  ⟨fun _ t found => ⟨t, found, rfl, List.prefix_rfl, fun _ => rfl⟩, fun _ h => h, fun _ h => h, rfl⟩

theorem trans (h : Grows written c c₁) (then_ : Grows written c₁ c') : Grows written c c' := by
  refine ⟨fun n t found => ?_, fun i m => then_.indexes i (h.indexes i m),
    fun t m => then_.triggers t (h.triggers t m), then_.views.trans h.views⟩
  obtain ⟨t₁, found₁, decl₁, rows₁, same₁⟩ := h.tables n t found
  obtain ⟨t', found', decl', rows', same'⟩ := then_.tables n t₁ found₁
  exact ⟨t', found', decl'.trans decl₁, rows₁.trans rows',
    fun other => (same' other).trans (same₁ other)⟩

theorem hasTable (h : Grows written c c') {n : String} (there : c.hasTable n = true) :
    c'.hasTable n = true := by
  obtain ⟨t, found⟩ := hasTable_iff.mp there
  obtain ⟨t', found', _⟩ := h.tables n t found
  exact hasTable_iff.mpr ⟨t', found'⟩

theorem hasIndex (h : Grows written c c') {n : String} (there : c.hasIndex n = true) :
    c'.hasIndex n = true := by
  obtain ⟨i, member, own⟩ := List.any_eq_true.mp there
  exact List.any_eq_true.mpr ⟨i, h.indexes i member, own⟩

theorem hasTrigger (h : Grows written c c') {n : String} (there : c.hasTrigger n = true) :
    c'.hasTrigger n = true := by
  obtain ⟨t, member, own⟩ := List.any_eq_true.mp there
  exact List.any_eq_true.mpr ⟨t, h.triggers t member, own⟩

end Catalog.Grows

/-! ## Statements that can be repeated -/

/-- A statement that adds what is missing. -/
def Stmt.additive : Stmt → Bool
  | .createTable _ _ ifNotExists => ifNotExists
  | .createIndex _ ifNotExists => ifNotExists
  | .createTrigger _ ifNotExists => ifNotExists
  | .insert orIgnore _ _ _ _ => orIgnore
  | _ => false

/-- What it adds fits: rows go to the tables `written` and come from others, triggers and new tables
    keep the tables `written` free of triggers and keyed. -/
def Stmt.Fits (written : String → Prop) : Stmt → Prop
  | .createTable n d _ => written n → ∃ key ∈ d.keys, d.Solid key
  | .createTrigger t _ => ¬ written t.table
  | .insert _ n _ _ source => written n ∧ ∀ s ∈ source, ¬ written s
  | _ => True

instance Stmt.decidableFits (written : String → Prop) [DecidablePred written] (s : Stmt) :
    Decidable (s.Fits written) :=
  match s with
  | .createTable n d _ =>
      inferInstanceAs (Decidable (written n → ∃ key ∈ d.keys, ∀ name ∈ key, ∃ col ∈ d.columns,
        col.name = name ∧ (col.notNull || col.rowid) = true))
  | .createTrigger t _ => inferInstanceAs (Decidable (¬ written t.table))
  | .insert _ n _ _ source => inferInstanceAs (Decidable (written n ∧ ∀ s ∈ source, ¬ written s))
  | .dropTable _ _ | .renameTable _ _ | .createIndex _ _ | .update _ _ _ _ _ | .setUserVersion _ =>
      .isTrue trivial

/-- What it adds is there. -/
def Stmt.Done (c : Catalog) : Stmt → Prop
  | .createTable n _ _ => c.hasTable n = true ∨ c.hasView n = true
  | .createIndex i _ => c.hasIndex i.name = true
  | .createTrigger t _ => c.hasTrigger t.name = true
  | .insert _ n columns values source => ∃ t rows, c.table? n = some t ∧
      c.select values source = .ok rows ∧
      ∀ v ∈ rows, c.refusal t t.rows (t.decl.build columns v) ≠ none
  | _ => False

/-- No trigger hangs on the tables `written`, and each of them has a key without NULLs. -/
structure Catalog.Open (written : String → Prop) (c : Catalog) : Prop where
  quiet : ∀ t ∈ c.triggers, ¬ written t.table
  keyed : ∀ n t, written n → c.table? n = some t → ∃ key ∈ t.decl.keys, t.decl.Solid key

theorem Catalog.Open.unarmed {written : String → Prop} {c : Catalog} (h : c.Open written)
    {n : String} (own : written n) (event : Event) : c.armed n event = false := by
  unfold Catalog.armed
  rw [List.any_eq_false]
  intro t member hit
  simp only [Bool.and_eq_true, beq_iff_eq] at hit
  exact h.quiet t member (hit.1 ▸ own)

/-- A row that a statement of the list puts into a table. -/
def Made (c : Catalog) (ss : List Stmt) (n : String) (d : Decl) (row : Row) : Prop :=
  ∃ columns values source rows, Stmt.insert true n columns values source ∈ ss ∧
    c.select values source = .ok rows ∧ ∃ v ∈ rows, row = d.build columns v

/-- The rows that were added to a table are made by the statements, and no constraint kept them out
    of the table before. -/
def Added (c c' : Catalog) (ss : List Stmt) (n : String) (t t' : Table) : Prop :=
  ∃ new, t'.rows = t.rows ++ new ∧ ∀ row ∈ new, Made c' ss n t.decl row ∧
    c.refusal t t.rows row = none

theorem Added.refl {c c' : Catalog} {ss : List Stmt} {n : String} {t : Table} :
    Added c c' ss n t t :=
  ⟨[], (List.append_nil _).symm, nofun⟩

/-- What a script of additive statements has done. -/
structure Advanced (written : String → Prop) (on : Bool) (ss : List Stmt) (c c' : Catalog) :
    Prop where
  grows : c.Grows written c'
  opens : c'.Open written
  done : ∀ s ∈ ss, s.Done c'
  kept : on = true → ∀ v ∈ c'.violations, v ∈ c.violations
  added : ∀ n t t', c.table? n = some t → c'.table? n = some t' → Added c c' ss n t t'
  triggers : ∀ u ∈ c'.triggers, u ∈ c.triggers ∨ ∃ b, Stmt.createTrigger u b ∈ ss

section Additive

variable {fire : Fire} {written : String → Prop} {c c' : Catalog} {s : Stmt}

theorem Catalog.Grows.select (h : Grows written c c') {values : List Expr} {source : Option String}
    {rows : List Row} (apart : ∀ s ∈ source, ¬ written s)
    (got : c.select values source = .ok rows) : c'.select values source = .ok rows := by
  cases source with
  | none => exact got
  | some n =>
    cases found : c.table? n with
    | none =>
      simp only [Catalog.select, found] at got
      cases got
    | some t =>
      obtain ⟨t', found', _, _, same⟩ := h.tables n t found
      cases same (apart n rfl)
      simp only [Catalog.select, found] at got
      simp only [Catalog.select, found']
      exact got

/-- What is there stays there. -/
theorem Stmt.Done.mono (h : s.Done c) (grows : c.Grows written c') (fits : s.Fits written) :
    s.Done c' := by
  cases s with
  | createTable n d b =>
    refine h.imp grows.hasTable fun view => ?_
    unfold Catalog.hasView at view ⊢
    rw [grows.views]
    exact view
  | createIndex i b => exact grows.hasIndex h
  | createTrigger t b => exact grows.hasTrigger h
  | insert b n columns values source =>
    obtain ⟨t, rows, found, got, refused⟩ := h
    obtain ⟨t', found', decl, more, _⟩ := grows.tables n t found
    refine ⟨t', rows, found', grows.select fits.2 got, fun v inside => ?_⟩
    rw [decl]
    refine Catalog.refusal_mono ?_ decl grows.indexes more.subset (refused v inside)
    exact (Catalog.table?_name found').trans (Catalog.table?_name found).symm
  | _ => exact h

/-- Where everything is there, the statement changes nothing. -/
theorem Stmt.Done.settled {on : Bool} (h : s.Done c) (additive : s.additive = true)
    (fits : s.Fits written) (open_ : c.Open written) (run : s.run fire on c = .ok c') : c' = c := by
  cases s with
  | createTable n d b =>
    cases additive
    have there : (c.hasTable n || c.hasView n) = true := Bool.or_eq_true_iff.mpr h
    simp only [Stmt.run, there, if_true] at run
    cases run
    rfl
  | createIndex i b =>
    cases additive
    have there : c.hasIndex i.name = true := h
    simp only [Stmt.run, there, if_true] at run
    split at run
    · cases run
    split at run
    · cases run
    · cases run
      rfl
  | createTrigger t b =>
    cases additive
    have there : c.hasTrigger t.name = true := h
    simp only [Stmt.run, there, if_true] at run
    split at run
    · cases run
    · cases run
      rfl
  | insert b n columns values source =>
    cases additive
    obtain ⟨t, rows, found, got, refused⟩ := h
    have same := @insertRows_settled fire n columns c rows t (open_.unarmed fits.1 .insert) found refused
    obtain ⟨_, _, _, got', inserting, _⟩ := Stmt.run_insert run
    rw [got] at got'
    cases got'
    rw [same] at inserting
    cases inserting
    rfl
  | _ => exact h.elim

/-- **What an additive statement does.** -/
theorem Stmt.run_additive {on : Bool} (additive : s.additive = true) (fits : s.Fits written)
    (open_ : c.Open written) (run : s.run fire on c = .ok c') :
    Advanced written on [s] c c' := by
  have single : s.Done c' → ∀ u ∈ [s], u.Done c' := by
    intro done u member
    rw [List.mem_singleton.mp member]
    exact done
  have same : ∀ n t t', c.table? n = some t → c.table? n = some t' → Added c c' [s] n t t' := by
    intro n t t' found found'
    rw [found] at found'
    cases found'
    exact .refl
  cases s with
  | createTable n d b =>
    cases additive
    simp only [Stmt.run, if_true] at run
    split at run
    · rename_i there
      cases run
      exact ⟨.refl, open_, single (Bool.or_eq_true_iff.mp there), fun _ _ h => h, same,
        fun _ => .inl⟩
    · rename_i absent
      split at run
      · cases run
      cases run
      simp only [Bool.or_eq_true, not_or, Bool.not_eq_true] at absent
      have none_ := Catalog.hasTable_false.mp absent.1
      have kept : ∀ m t, c.table? m = some t → (c.createTable n d).table? m = some t := by
        intro m t found
        rw [Catalog.table?_createTable none_, if_neg, found]
        rintro rfl
        rw [none_] at found
        cases found
      refine ⟨⟨fun m t found => ⟨t, kept m t found, rfl, List.prefix_rfl, fun _ => rfl⟩, fun _ h => h,
        fun _ h => h, rfl⟩, ⟨open_.quiet, ?_⟩, single (.inl ?_),
        fun _ v => violations_createTable none_, ?_, fun _ => .inl⟩
      · intro m t own found
        rw [Catalog.table?_createTable none_] at found
        split at found
        · rename_i this
          cases found
          exact fits (this ▸ own)
        · exact open_.keyed m t own found
      · refine Catalog.hasTable_iff.mpr ⟨⟨n, d, [], fun _ none_ => absurd none_ List.not_mem_nil⟩, ?_⟩
        rw [Catalog.table?_createTable none_, if_pos rfl]
      · intro m t t' found found'
        rw [kept m t found] at found'
        cases found'
        exact .refl
  | createIndex i b =>
    cases additive
    simp only [Stmt.run, if_true] at run
    split at run
    · cases run
    split at run
    · cases run
    split at run
    · rename_i there
      cases run
      exact ⟨.refl, open_, single there, fun _ _ h => h, same, fun _ => .inl⟩
    split at run
    · cases run
      refine ⟨⟨fun n t found => ⟨t, found, rfl, List.prefix_rfl, fun _ => rfl⟩,
        fun _ h => List.mem_append_left _ h, fun _ h => h, rfl⟩, ⟨open_.quiet, open_.keyed⟩, single ?_,
        fun _ _ h => h, same, fun _ => .inl⟩
      exact List.any_eq_true.mpr ⟨i, List.mem_append_right _ (List.mem_singleton_self _), by simp⟩
    · cases run
  | createTrigger t b =>
    cases additive
    simp only [Stmt.run, if_true] at run
    split at run
    · cases run
    split at run
    · rename_i there
      cases run
      exact ⟨.refl, open_, single there, fun _ _ h => h, same, fun _ => .inl⟩
    · cases run
      refine ⟨⟨fun n t found => ⟨t, found, rfl, List.prefix_rfl, fun _ => rfl⟩, fun _ h => h,
        fun _ h => List.mem_append_left _ h, rfl⟩, ⟨?_, open_.keyed⟩, single ?_, fun _ _ h => h, same,
        fun u member => ?_⟩
      · intro u member
        rcases List.mem_append.mp member with old | new
        · exact open_.quiet u old
        · rw [List.mem_singleton.mp new]
          exact fits
      · exact List.any_eq_true.mpr ⟨t, List.mem_append_right _ (List.mem_singleton_self _), by simp⟩
      · refine (List.mem_append.mp member).imp_right fun new => ⟨true, ?_⟩
        rw [List.mem_singleton.mp new]
        exact List.mem_singleton_self _
  | insert b n columns values source =>
    cases additive
    obtain ⟨t, rows, found, got, inserting, kept⟩ := Stmt.run_insert run
    obtain ⟨new, inserted, made, _, settled⟩ :=
      insertRows_inserted (open_.unarmed fits.1 .insert) found inserting
    obtain ⟨_, t', found₀, found', decl, rows'⟩ := inserted.table
    rw [found] at found₀
    cases found₀
    have grows : c.Grows written c' := by
      refine ⟨fun m u there => ?_, fun i h => ?_, fun u h => ?_, inserted.views⟩
      · by_cases own : m = n
        · subst own
          rw [found] at there
          cases there
          refine ⟨t', found', decl, ?_, fun other => absurd fits.1 other⟩
          rw [rows']
          exact List.prefix_append _ _
        · exact ⟨u, (inserted.others m own).trans there, rfl, List.prefix_rfl, fun _ => rfl⟩
      · rw [inserted.indexes]
        exact h
      · rw [inserted.triggers]
        exact h
    refine ⟨grows, ⟨?_, ?_⟩, single ⟨t', rows, found', grows.select fits.2 got, ?_⟩, kept, ?_,
      fun u member => .inl (inserted.triggers ▸ member)⟩
    · rw [inserted.triggers]
      exact open_.quiet
    · intro m u own there
      by_cases this : m = n
      · subst this
        rw [found'] at there
        cases there
        rw [decl]
        exact open_.keyed m t own found
      · rw [inserted.others m this] at there
        exact open_.keyed m u own there
    · rw [decl]
      exact settled (open_.keyed n t fits.1 found) t' found'
    · intro m u u' there there'
      by_cases own : m = n
      · subst own
        rw [found] at there
        cases there
        rw [found'] at there'
        cases there'
        refine ⟨new, rows', fun row added => ?_⟩
        obtain ⟨⟨v, inside, made⟩, free⟩ := made row added
        exact ⟨⟨columns, values, source, rows, List.mem_singleton_self _, grows.select fits.2 got, v,
          inside, made⟩, free⟩
      · rw [inserted.others m own, there] at there'
        cases there'
        exact .refl
  | _ => cases additive

theorem Made.mono {ss ss' : List Stmt} {n : String} {d : Decl} {row : Row} (h : Made c ss n d row)
    (grows : c.Grows written c') (fits : ∀ s ∈ ss, s.Fits written) (more : ∀ s ∈ ss, s ∈ ss') :
    Made c' ss' n d row := by
  obtain ⟨columns, values, source, list, inside, got, v, there, same⟩ := h
  exact ⟨columns, values, source, list, more _ inside, grows.select (fits _ inside).2 got, v, there,
    same⟩

/-- **What a script of additive statements does.** It adds rows that its statements make, and all it
    ought to add is there in the end. -/
theorem runAll_additive {on : Bool} {ss : List Stmt} (additive : ∀ s ∈ ss, s.additive = true)
    (fits : ∀ s ∈ ss, s.Fits written) (open_ : c.Open written) (run : runAll fire on ss c = .ok c') :
    Advanced written on ss c c' := by
  induction ss generalizing c with
  | nil =>
    cases run
    refine ⟨.refl, open_, nofun, fun _ _ h => h, fun n t t' found found' => ?_, fun _ => .inl⟩
    rw [found] at found'
    cases found'
    exact .refl
  | cons s rest ih =>
    obtain ⟨mid, head, tail⟩ := runAll_cons.mp run
    have one : ∀ u ∈ [s], u ∈ s :: rest := fun u member => by
      rw [List.mem_singleton.mp member]
      exact List.mem_cons_self
    have first := Stmt.run_additive (additive s List.mem_cons_self) (fits s List.mem_cons_self) open_ head
    have later := ih (fun s member => additive s (List.mem_cons_of_mem _ member))
      (fun s member => fits s (List.mem_cons_of_mem _ member)) first.opens tail
    refine ⟨first.grows.trans later.grows, later.opens, fun u member => ?_, fun flag v member => ?_, ?_,
      fun u member => ?_⟩
    · rcases List.mem_cons.mp member with rfl | member
      · exact (first.done u (List.mem_singleton_self _)).mono later.grows (fits u List.mem_cons_self)
      · exact later.done u member
    · exact first.kept flag v (later.kept flag v member)
    · intro n t t' found found'
      obtain ⟨t₁, found₁, decl, more, _⟩ := first.grows.tables n t found
      obtain ⟨new, rows₁, made₁⟩ := first.added n t t₁ found found₁
      obtain ⟨new', rows₂, made₂⟩ := later.added n t₁ t' found₁ found'
      refine ⟨new ++ new', by rw [rows₂, rows₁, List.append_assoc], fun row member => ?_⟩
      rcases List.mem_append.mp member with this | that
      · obtain ⟨made, free⟩ := made₁ row this
        exact ⟨made.mono later.grows (fun u member => fits u (one u member)) one, free⟩
      · obtain ⟨made, free⟩ := made₂ row that
        rw [decl] at made
        refine ⟨made.mono .refl (fun u member => fits u (List.mem_cons_of_mem _ member))
          fun u member => List.mem_cons_of_mem _ member, ?_⟩
        by_contra refused
        refine Catalog.refusal_mono ?_ decl first.grows.indexes more.subset refused free
        exact (Catalog.table?_name found₁).trans (Catalog.table?_name found).symm
    · rcases later.triggers u member with old | ⟨b, inside⟩
      · exact (first.triggers u old).imp_right fun ⟨b, inside⟩ => ⟨b, one _ inside⟩
      · exact .inr ⟨b, List.mem_cons_of_mem _ inside⟩

/-- A script whose additions are all there changes nothing. -/
theorem runAll_settled {on : Bool} {ss : List Stmt} (additive : ∀ s ∈ ss, s.additive = true)
    (fits : ∀ s ∈ ss, s.Fits written) (open_ : c.Open written) (done : ∀ s ∈ ss, s.Done c)
    (run : runAll fire on ss c = .ok c') : c' = c := by
  induction ss with
  | nil =>
    cases run
    rfl
  | cons s rest ih =>
    obtain ⟨mid, head, tail⟩ := runAll_cons.mp run
    obtain rfl := (done s List.mem_cons_self).settled (additive s List.mem_cons_self)
      (fits s List.mem_cons_self) open_ head
    exact ih (fun s member => additive s (List.mem_cons_of_mem _ member))
      (fun s member => fits s (List.mem_cons_of_mem _ member))
      (fun s member => done s (List.mem_cons_of_mem _ member)) tail

end Additive

end Lib.Sql
