import Cmpath.Lib.Text

/-!
# Lines of a text

`Text.lines` is `str.splitlines(keepends=True)`: the lines of a text with what ends them, whose
concatenation is the text. `Text.occurs` is the `in` of two strings.

`chop` reads a list block by block: a block begins at an element that starts one and goes up to the
next that stops it. `chop_induction` is the induction over what it reads, and `chop_append` says that
it may be read in two parts where the second begins with an element that stops a block.
-/

namespace Lib

/-- A boundary of `str.splitlines`. -/
def Rune.isBreak : Rune → Bool
  | .char c =>
      let n := c.toNat
      (10 ≤ n && n ≤ 13) || (28 ≤ n && n ≤ 30) || n == 0x85 || n == 0x2028 || n == 0x2029
  | .stray _ => false

namespace Text

/-- The lines from the one on of which a part is read. -/
def linesFrom (line : Text) : Text → List Text
  | [] => if line.isEmpty then [] else [line]
  | .char '\r' :: .char '\n' :: rest => (line ++ [.char '\r', .char '\n']) :: linesFrom [] rest
  | r :: rest =>
      if r.isBreak then (line ++ [r]) :: linesFrom [] rest else linesFrom (line ++ [r]) rest

/-- `t.splitlines(keepends=True)`. -/
def lines (t : Text) : List Text := linesFrom [] t

theorem flatten_linesFrom (line t : Text) : (linesFrom line t).flatten = line ++ t := by
  fun_induction linesFrom line t with
  | case1 line none_ =>
    rw [List.isEmpty_iff.mp none_]
    rfl
  | case2 line some_ => simp
  | case3 line rest ih => rw [List.flatten_cons, ih, List.nil_append, List.append_assoc]; rfl
  | case4 line r rest _ ends ih => rw [List.flatten_cons, ih, List.nil_append, List.append_assoc]; rfl
  | case5 line r rest _ goes ih => rw [ih, List.append_assoc]; rfl

@[simp] theorem flatten_lines (t : Text) : t.lines.flatten = t := flatten_linesFrom [] t

/-- `needle in t`. -/
def occurs (needle : Text) : Text → Bool
  | [] => needle.isEmpty
  | r :: rest => needle.isPrefixOf (r :: rest) || occurs needle rest

theorem occurs_iff {needle t : Text} : occurs needle t = true ↔ needle <:+: t := by
  induction t with
  | nil =>
    unfold occurs
    rw [List.isEmpty_iff, List.infix_nil]
  | cons r rest ih =>
    unfold occurs
    rw [Bool.or_eq_true, ih, List.isPrefixOf_iff_prefix, List.infix_cons_iff]

/-- The parts around the first occurrence. -/
def splitAt? (needle : Text) : Text → Option (Text × Text)
  | [] => if needle.isEmpty then some ([], []) else none
  | r :: rest =>
      if needle.isPrefixOf (r :: rest) then some ([], (r :: rest).drop needle.length)
      else (splitAt? needle rest).map fun parts => (r :: parts.1, parts.2)

theorem splitAt?_none {needle t : Text} (some_ : needle ≠ []) (h : ¬ needle <:+: t) :
    splitAt? needle t = none := by
  induction t with
  | nil =>
    unfold splitAt?
    rw [if_neg]
    simpa using some_
  | cons r rest ih =>
    rw [List.infix_cons_iff] at h
    unfold splitAt?
    rw [if_neg fun here => h (.inl (List.isPrefixOf_iff_prefix.mp here)), ih fun later => h (.inr later)]
    rfl

/-- A needle without a line feed is found where it begins a line, when it is not in the lines
    before. -/
theorem splitAt?_line {needle before after : Text} (some_ : needle ≠ [])
    (flat : Rune.char '\n' ∉ needle) (absent : ¬ needle <:+: before)
    (ended : before = [] ∨ ∃ init, before = init ++ [.char '\n']) :
    splitAt? needle (before ++ (needle ++ after)) = some (before, after) := by
  induction before with
  | nil =>
    cases needle with
    | nil => exact absurd rfl some_
    | cons c needle =>
      have here : (c :: needle).isPrefixOf (c :: (needle ++ after)) = true :=
        List.isPrefixOf_iff_prefix.mpr (List.prefix_append (c :: needle) after)
      show splitAt? (c :: needle) (c :: (needle ++ after)) = _
      unfold splitAt?
      rw [if_pos here]
      simp
  | cons r rest ih =>
    rw [List.infix_cons_iff, not_or] at absent
    obtain ⟨init, closed⟩ := ended.resolve_left (List.cons_ne_nil r rest)
    have missed : ¬ needle.isPrefixOf (r :: (rest ++ (needle ++ after))) = true := by
      rw [List.isPrefixOf_iff_prefix]
      intro here
      have whole : r :: rest <+: r :: (rest ++ (needle ++ after)) := List.prefix_append (r :: rest) _
      rcases List.prefix_or_prefix_of_prefix here whole with short | long
      · exact absent.1 short
      · refine flat (long.subset ?_)
        rw [closed]
        exact List.mem_append_right _ List.mem_cons_self
    have later : rest = [] ∨ ∃ init, rest = init ++ [.char '\n'] := by
      cases init with
      | nil => exact .inl (List.cons.inj closed).2
      | cons c init => exact .inr ⟨init, (List.cons.inj closed).2⟩
    show splitAt? needle (r :: (rest ++ (needle ++ after))) = _
    unfold splitAt?
    rw [if_neg missed, ih absent.2 later]
    rfl

/-! ## A line feed at the end -/

/-- The lines of a text when a line feed is put at its end: one more, or the last one ended. -/
inductive Closed : List Text → List Text → Prop
  | line (lines : List Text) : Closed lines (lines ++ [[.char '\n']])
  | last (init : List Text) {line : Text} (some_ : line ≠ []) :
      Closed (init ++ [line]) (init ++ [line ++ [.char '\n']])

theorem Closed.cons {lines lines' : List Text} (first : Text) (h : Closed lines lines') :
    Closed (first :: lines) (first :: lines') := by
  cases h with
  | line => exact .line (first :: lines)
  | last init some_ => exact .last (first :: init) some_

theorem Closed.flatten {lines lines' : List Text} (h : Closed lines lines') :
    lines'.flatten = lines.flatten ++ [Rune.char '\n'] := by
  cases h with
  | line => simp
  | last init some_ => simp

theorem Closed.nil_inv {lines' : List Text} (h : Closed [] lines') : lines' = [[Rune.char '\n']] := by
  generalize none_ : [] = lines at h
  cases h with
  | line => rw [← none_]; rfl
  | last init some_ => exact absurd none_.symm (by simp)

theorem Closed.cons_inv {first : Text} {rest lines' : List Text} (h : Closed (first :: rest) lines') :
    (∃ rest', lines' = first :: rest' ∧ Closed rest rest') ∨
      rest = [] ∧ first ≠ [] ∧ lines' = [first ++ [Rune.char '\n']] := by
  generalize whole : first :: rest = lines at h
  cases h with
  | line =>
    subst whole
    exact .inl ⟨rest ++ [[.char '\n']], rfl, .line rest⟩
  | last init some_ =>
    cases init with
    | nil =>
      obtain ⟨rfl, rfl⟩ := List.cons.inj whole
      exact .inr ⟨rfl, some_, rfl⟩
    | cons c init =>
      obtain ⟨rfl, rfl⟩ := List.cons.inj whole
      exact .inl ⟨_, rfl, .last init some_⟩

theorem Closed.append_inv {xs ys lines' : List Text} (more : ys ≠ []) (h : Closed (xs ++ ys) lines') :
    ∃ ys', lines' = xs ++ ys' ∧ Closed ys ys' := by
  induction xs generalizing lines' with
  | nil => exact ⟨lines', rfl, h⟩
  | cons x xs ih =>
    rcases h.cons_inv with ⟨rest', rfl, later⟩ | ⟨none_, -, -⟩
    · obtain ⟨ys', rfl, closed⟩ := ih later
      exact ⟨ys', rfl, closed⟩
    · exact absurd (List.append_eq_nil_iff.mp none_).2 more

theorem linesFrom_break {line rest : Text} {r : Rune} (ends : r.isBreak = true)
    (single : r = .char '\r' → rest.head? ≠ some (.char '\n')) :
    linesFrom line (r :: rest) = (line ++ [r]) :: linesFrom [] rest := by
  rw [linesFrom, if_pos ends]
  rintro rest' same rfl
  exact single same rfl

theorem linesFrom_goes {line rest : Text} {r : Rune} (goes : r.isBreak = false) :
    linesFrom line (r :: rest) = linesFrom (line ++ [r]) rest := by
  rw [linesFrom, if_neg (by simp [goes])]
  intro rest' same
  rw [same] at goes
  exact absurd goes (by decide)

theorem closed_linesFrom (line t : Text) :
    Closed (linesFrom line t) (linesFrom line (t ++ [.char '\n'])) := by
  fun_induction linesFrom line t with
  | case1 line none_ =>
    rw [List.isEmpty_iff.mp none_]
    exact .line []
  | case2 line some_ => exact .last [] (by simpa using some_)
  | case3 line rest ih =>
    rw [List.cons_append, List.cons_append, linesFrom]
    exact ih.cons _
  | case4 line r rest double ends ih =>
    rw [List.cons_append]
    cases rest with
    | nil =>
      rcases Decidable.em (r = .char '\r') with rfl | other
      · have both : Closed ([] ++ [line ++ [.char '\r']]) ([] ++ [line ++ [.char '\r'] ++ [.char '\n']]) :=
          .last [] (by simp)
        rw [List.append_assoc] at both
        exact both
      · rw [List.nil_append, linesFrom_break ends fun same => absurd same other]
        exact (Closed.line []).cons _
    | cons c rest =>
      rw [linesFrom_break ends]
      · exact ih.cons _
      · intro same shape
        obtain rfl : c = .char '\n' := Option.some.inj shape
        exact double rest same rfl
  | case5 line r rest double goes ih =>
    rw [List.cons_append, linesFrom_goes (by simpa using goes)]
    exact ih

theorem closed_lines (t : Text) : Closed t.lines (lines (t ++ [.char '\n'])) := closed_linesFrom [] t

/-! ## Needles -/

/-- A needle without a rune is on one side of it. -/
theorem infix_around {needle before after : Text} {r : Rune} (flat : r ∉ needle) :
    needle <:+: before ++ r :: after ↔ needle <:+: before ∨ needle <:+: after := by
  constructor
  · rintro ⟨s, u, same⟩
    rw [List.append_assoc] at same
    rcases List.append_eq_append_iff.mp same with ⟨cut, rfl, rest⟩ | ⟨cut, rfl, rest⟩
    · rcases List.append_eq_append_iff.mp rest with ⟨cut', rfl, _⟩ | ⟨cut', same', rest'⟩
      · exact .inl ⟨s, cut', List.append_assoc _ _ _⟩
      · cases cut' with
        | nil => exact .inl ⟨s, [], by simp [same']⟩
        | cons c cut' =>
          obtain ⟨rfl, _⟩ := List.cons.inj rest'
          exact absurd (same' ▸ List.mem_append_right cut List.mem_cons_self) flat
    · cases cut with
      | nil =>
        cases needle with
        | nil => exact .inr (List.nil_infix)
        | cons c needle =>
          obtain ⟨rfl, _⟩ := List.cons.inj rest
          exact absurd List.mem_cons_self flat
      | cons c cut =>
        refine .inr ⟨cut, u, ?_⟩
        rw [List.append_assoc]
        exact (List.cons.inj rest).2.symm
  · rintro (left | right)
    · exact left.trans (List.prefix_append before _).isInfix
    · exact right.trans ⟨before ++ [r], [], by simp⟩

/-- A needle is after what does not have its first rune. -/
theorem infix_after {r : Rune} {needle before after : Text} (flat : r ∉ before) :
    r :: needle <:+: before ++ after ↔ r :: needle <:+: after := by
  refine ⟨fun h => ?_, fun h => h.trans (List.suffix_append before after).isInfix⟩
  induction before with
  | nil => exact h
  | cons c before ih =>
    rw [List.cons_append, List.infix_cons_iff] at h
    rcases h with here | later
    · obtain ⟨rfl, _⟩ := List.cons_prefix_cons.mp here
      exact absurd List.mem_cons_self flat
    · exact ih (fun member => flat (List.mem_cons_of_mem c member)) later

/-! ## Universal newlines -/

/-- What is read in text mode: `\r\n` and `\r` are line feeds. -/
def universal : Text → Text
  | [] => []
  | .char '\r' :: .char '\n' :: rest => .char '\n' :: universal rest
  | .char '\r' :: rest => .char '\n' :: universal rest
  | r :: rest => r :: universal rest

theorem universal_flat {t : Text} : .char '\r' ∉ universal t := by
  fun_induction universal t with
  | case1 => exact List.not_mem_nil
  | case2 rest ih => simpa using ih
  | case3 rest _ ih => simpa using ih
  | case4 r rest _ plain ih =>
    rw [List.mem_cons, not_or]
    exact ⟨fun same => plain same.symm, ih⟩

/-- A text without carriage returns is read as it is. -/
theorem universal_append {t : Text} (flat : .char '\r' ∉ t) (rest : Text) :
    universal (t ++ rest) = t ++ universal rest := by
  induction t with
  | nil => rfl
  | cons r t ih =>
    rw [List.mem_cons, not_or] at flat
    rw [List.cons_append, universal, ih flat.2]
    · rfl
    · intro rest' same _
      exact flat.1 same.symm
    · exact fun same => flat.1 same.symm

theorem universal_of_flat {t : Text} (flat : .char '\r' ∉ t) : universal t = t := by
  have := universal_append flat []
  rwa [List.append_nil, universal, List.append_nil] at this

/-- What ends with a rune that is no line feed or carriage return is read up to there. -/
theorem universal_cut (t : Text) {r : Rune} {rest : Text} (plain : r ≠ .char '\n') :
    universal (t ++ r :: rest) = universal t ++ universal (r :: rest) := by
  fun_induction universal t with
  | case1 => rfl
  | case2 t ih => rw [List.cons_append, List.cons_append, universal, ih]; rfl
  | case3 t single ih =>
    rw [List.cons_append, universal, ih]
    · rfl
    · intro rest' same
      cases t with
      | nil =>
        obtain ⟨rfl, _⟩ := List.cons.inj same
        exact plain rfl
      | cons c t =>
        obtain ⟨rfl, _⟩ := List.cons.inj same
        exact single t rfl
  | case4 c t double other ih =>
    rw [List.cons_append, universal, ih]
    · rfl
    · intro rest' same _
      exact other same
    · exact other

/-- A line feed at the end stays there. -/
theorem universal_line (t : Text) : ∃ init, universal (t ++ [.char '\n']) = init ++ [.char '\n'] := by
  fun_induction universal t with
  | case1 => exact ⟨[], rfl⟩
  | case2 t ih =>
    obtain ⟨init, same⟩ := ih
    exact ⟨.char '\n' :: init, by rw [List.cons_append, List.cons_append, universal, same]; rfl⟩
  | case3 t single ih =>
    obtain ⟨init, same⟩ := ih
    cases t with
    | nil => exact ⟨[], rfl⟩
    | cons c t =>
      refine ⟨.char '\n' :: init, ?_⟩
      rw [List.cons_append, universal, same]
      · rfl
      · intro rest' shape
        obtain ⟨rfl, _⟩ := List.cons.inj shape
        exact single t rfl
  | case4 c t double other ih =>
    obtain ⟨init, same⟩ := ih
    refine ⟨c :: init, ?_⟩
    rw [List.cons_append, universal, same]
    · rfl
    · intro rest' shape _
      exact other shape
    · exact other

/-- A needle without line ends is in what is read only if it is in the text. -/
theorem prefix_universal {needle t : Text} (flat : .char '\n' ∉ needle) (h : needle <+: universal t) :
    needle <+: t := by
  induction needle generalizing t with
  | nil => exact List.nil_prefix
  | cons c needle ih =>
    rw [List.mem_cons, not_or] at flat
    fun_cases universal t with
    | case1 => exact h
    | case2 rest =>
      rw [universal] at h
      exact absurd (List.cons_prefix_cons.mp h).1.symm flat.1
    | case3 rest single =>
      rw [universal] at h
      · exact absurd (List.cons_prefix_cons.mp h).1.symm flat.1
      · exact single
    | case4 r rest double other =>
      rw [universal] at h
      · obtain ⟨rfl, later⟩ := List.cons_prefix_cons.mp h
        exact List.cons_prefix_cons.mpr ⟨rfl, ih flat.2 later⟩
      · exact double
      · exact other

theorem infix_universal {needle t : Text} (some_ : needle ≠ []) (flat : .char '\n' ∉ needle)
    (h : needle <:+: universal t) : needle <:+: t := by
  have missed : ∀ rest, ¬ needle <+: .char '\n' :: rest := by
    intro rest here
    cases needle with
    | nil => exact some_ rfl
    | cons c needle =>
      rw [(List.cons_prefix_cons.mp here).1] at flat
      exact flat List.mem_cons_self
  fun_induction universal t with
  | case1 => exact h
  | case2 rest ih =>
    rcases List.infix_cons_iff.mp h with here | later
    · exact absurd here (missed _)
    · exact (ih later).trans ⟨[.char '\r', .char '\n'], [], by simp⟩
  | case3 rest single ih =>
    rcases List.infix_cons_iff.mp h with here | later
    · exact absurd here (missed _)
    · exact (ih later).trans ⟨[.char '\r'], [], by simp⟩
  | case4 r rest double other ih =>
    rcases List.infix_cons_iff.mp h with here | later
    · refine (prefix_universal flat (t := r :: rest) ?_).isInfix
      rw [universal]
      · exact here
      · exact double
      · exact other
    · exact (ih later).trans ⟨[r], [], by simp⟩

end Text

/-! ## The first of many -/

/-- For each of `n` places whether it is one of the first `k`. -/
def firstOf (k n : Nat) : List Bool := (List.range n).map fun i => decide (i < k)

@[simp] theorem length_firstOf (k n : Nat) : (firstOf k n).length = n := by simp [firstOf]

theorem getElem?_firstOf {k n i : Nat} (h : i < n) : (firstOf k n)[i]? = some (decide (i < k)) := by
  simp [firstOf, h]

theorem firstOf_inj {j k n : Nat} (hj : j ≤ n) (hk : k ≤ n) : firstOf j n = firstOf k n ↔ j = k := by
  refine ⟨fun h => ?_, fun h => by rw [h]⟩
  have agree : ∀ i, i < n → (i < j ↔ i < k) := by
    intro i small
    have here := congrArg (·[i]?) h
    simp only [getElem?_firstOf small, Option.some.injEq, decide_eq_decide] at here
    exact here
  rcases Nat.lt_trichotomy j k with less | same | more
  · exact absurd ((agree j (by omega)).mpr less) (Nat.lt_irrefl j)
  · exact same
  · exact absurd ((agree k (by omega)).mp more) (Nat.lt_irrefl k)

theorem firstOf_add (m k n : Nat) : firstOf (m + k) (m + n) = firstOf m m ++ firstOf k n := by
  unfold firstOf
  rw [List.range_add, List.map_append, List.map_map]
  congr 1
  · refine List.map_congr_left fun i member => ?_
    rw [List.mem_range] at member
    rw [decide_eq_true (show i < m + k by omega), decide_eq_true member]
  · refine List.map_congr_left fun i _ => ?_
    simp

theorem firstOf_zero_add (m n : Nat) : firstOf 0 (m + n) = firstOf 0 m ++ firstOf 0 n := by
  unfold firstOf
  rw [List.range_add, List.map_append, List.map_map]
  congr 1

/-! ## Blocks -/

section Chop

variable {α β : Type} (starts stops : α → Bool) (single : α → List β)
  (block : Bool → List α → List β)

/-- What is made of each block, and of each element outside one. A block is told whether more
    elements follow; the number counts the elements of the block that was just read. -/
def chopFrom (more : Bool) : Nat → List α → List β
  | _, [] => []
  | skip + 1, _ :: rest => chopFrom more skip rest
  | 0, a :: rest =>
      if starts a then
        let body := rest.takeWhile fun b => !stops b
        block (more || decide (body.length < rest.length)) (a :: body) ++
          chopFrom more body.length rest
      else single a ++ chopFrom more 0 rest

def chop (more : Bool) (l : List α) : List β := chopFrom starts stops single block more 0 l

variable {starts stops single block} {more : Bool}

theorem chopFrom_skip (n : Nat) (l : List α) :
    chopFrom starts stops single block more n l = chop starts stops single block more (l.drop n) := by
  induction l generalizing n with
  | nil => cases n <;> rfl
  | cons a rest ih =>
    cases n with
    | zero => rfl
    | succ n => exact ih n

@[simp] theorem chop_nil : chop starts stops single block more [] = [] := rfl

theorem chop_single {a : α} (h : starts a = false) (rest : List α) :
    chop starts stops single block more (a :: rest) =
      single a ++ chop starts stops single block more rest := by
  show (if starts a then _ else _) = _
  rw [if_neg (by simp [h])]
  rfl

/-- What follows a block is empty or begins with an element that stops it. -/
def Stopped (stops : α → Bool) (after : List α) : Prop := ∀ b ∈ after.head?, stops b = true

theorem takeWhile_stopped {body after : List α} (inside : ∀ b ∈ body, stops b = false)
    (stopped : Stopped stops after) :
    ((body ++ after).takeWhile fun b => !stops b) = body := by
  rw [List.takeWhile_append_of_pos fun b member => by simp [inside b member]]
  cases after with
  | nil => simp
  | cons b after =>
    have stop := stopped b rfl
    rw [List.takeWhile_cons_of_neg (by simp [stop]), List.append_nil]

theorem chop_block {a : α} {body after : List α} (h : starts a = true)
    (inside : ∀ b ∈ body, stops b = false) (stopped : Stopped stops after) :
    chop starts stops single block more (a :: (body ++ after)) =
      block (more || !after.isEmpty) (a :: body) ++ chop starts stops single block more after := by
  show (if starts a then _ else _) = _
  rw [if_pos h, takeWhile_stopped inside stopped, chopFrom_skip, List.drop_left]
  congr 3
  cases after <;> simp

variable (starts stops) in
/-- Induction over what is read. -/
theorem chop_induction {P : List α → Prop} (nil : P [])
    (single_ : ∀ a rest, starts a = false → P rest → P (a :: rest))
    (block_ : ∀ a body after, starts a = true → (∀ b ∈ body, stops b = false) →
      Stopped stops after → P after → P (a :: (body ++ after))) (l : List α) : P l := by
  have all : ∀ n, ∀ l : List α, l.length ≤ n → P l := by
    intro n
    induction n with
    | zero =>
      intro l size
      rw [List.length_eq_zero_iff.mp (Nat.le_zero.mp size)]
      exact nil
    | succ n ih =>
      intro l size
      cases l with
      | nil => exact nil
      | cons a rest =>
        have small : rest.length ≤ n := Nat.le_of_succ_le_succ size
        cases first : starts a with
        | false => exact single_ a rest first (ih rest small)
        | true =>
          have split_ := List.takeWhile_append_dropWhile (p := fun b => !stops b) (l := rest)
          rw [← split_]
          refine block_ a _ _ first (fun b member => ?_) (fun b head => ?_) (ih _ ?_)
          · simpa using List.mem_takeWhile_imp member
          · have stop := List.head?_dropWhile_not (fun b => !stops b) rest
            rw [Option.mem_def.mp head] at stop
            simpa using stop
          · exact Nat.le_trans (List.length_dropWhile_le _ _) small
  exact all l.length l (Nat.le_refl _)

/-- A list is read in two parts where the second begins with an element that stops a block. -/
theorem chop_append (xs : List α) {after : List α} (stopped : Stopped stops after) :
    chop starts stops single block more (xs ++ after) =
      chop starts stops single block (more || !after.isEmpty) xs ++
        chop starts stops single block more after := by
  refine chop_induction starts stops (P := fun xs => chop starts stops single block more (xs ++ after) =
    chop starts stops single block (more || !after.isEmpty) xs ++
      chop starts stops single block more after) rfl ?_ ?_ xs
  · intro a rest h ih
    rw [List.cons_append, chop_single h, chop_single h, ih, List.append_assoc]
  · intro a body rest h inside stop ih
    have both : Stopped stops (rest ++ after) := by
      cases rest with
      | nil => exact stopped
      | cons b rest => exact stop
    rw [List.cons_append, List.append_assoc, chop_block h inside both, chop_block h inside stop, ih,
      List.append_assoc]
    congr 2
    cases rest <;> cases more <;> simp

end Chop

end Lib
