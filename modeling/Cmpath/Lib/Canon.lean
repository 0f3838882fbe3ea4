import Cmpath.Lib.Json

/-!
# Equal texts, equal values

Two values with one text are equal up to their stray units (`blur_eq_of_marshal`), and so read back
alike (`scrub_eq_of_marshal`). A value that was read back, its fields in key order, is in a normal
form that reading and writing leave alone (`canon_canon`).
-/

namespace Lib
open Text

namespace Text

theorem blur_blur (t : Text) : t.blur.blur = t.blur := by
  unfold blur
  rw [List.map_map]
  refine List.map_congr_left fun r _ => ?_
  cases r <;> rfl

theorem le_total (a b : Text) : le a b = true ∨ le b a = true := by
  simp only [le, decide_eq_true_eq]
  exact LinearOrder.le_total _ _

theorem le_trans {a b c : Text} (first : le a b = true) (second : le b c = true) :
    le a c = true := by
  simp only [le, decide_eq_true_eq] at *
  exact Preorder.le_trans _ _ _ first second

end Text

namespace Json

/-! ## Stray units -/

mutual

/-- The value with the stray units of its texts all alike. -/
def blur : Json → Json
  | .null => .null
  | .bool b => .bool b
  | .int n => .int n
  | .num spelling => .num spelling
  | .str s => .str s.blur
  | .arr items => .arr (blurItems items)
  | .obj fields => .obj (blurFields fields)

def blurItems : List Json → List Json
  | [] => []
  | x :: rest => blur x :: blurItems rest

def blurFields : List (Text × Json) → List (Text × Json)
  | [] => []
  | (k, x) :: rest => (k.blur, blur x) :: blurFields rest

end

mutual

/-- Every number in the value is spelled as one. -/
def Numbers : Json → Prop
  | .num spelling => Spelled spelling
  | .arr items => NumbersItems items
  | .obj fields => NumbersFields fields
  | _ => True

def NumbersItems : List Json → Prop
  | [] => True
  | x :: rest => Numbers x ∧ NumbersItems rest

def NumbersFields : List (Text × Json) → Prop
  | [] => True
  | (_, x) :: rest => Numbers x ∧ NumbersFields rest

end

theorem numbersItems_iff {xs : List Json} : NumbersItems xs ↔ ∀ x ∈ xs, Numbers x := by
  induction xs with
  | nil => simp [NumbersItems]
  | cons x xs ih => rw [NumbersItems, ih, List.forall_mem_cons]

theorem numbersFields_iff {fs : List (Text × Json)} :
    NumbersFields fs ↔ ∀ f ∈ fs, Numbers f.2 := by
  induction fs with
  | nil => simp [NumbersFields]
  | cons f fs ih => rw [NumbersFields, ih, List.forall_mem_cons]

theorem quote_blur (s : Text) : quote s.blur = quote s := by
  have body : s.blur.flatMap escape = s.flatMap escape := by
    unfold Text.blur
    rw [List.flatMap_map]
    congr 1
    funext r
    cases r <;> rfl
  unfold quote
  rw [body]

mutual

theorem marshal_blur : ∀ j : Json, marshal (blur j) = marshal j
  | .null | .bool _ | .int _ | .num _ => rfl
  | .str s => quote_blur s
  | .arr xs => by
      show _ :: _ = _
      rw [marshalItems_blur xs]
      rfl
  | .obj fs => by
      show _ :: _ = _
      rw [marshalFields_blur fs]
      rfl

theorem marshalItems_blur : ∀ xs : List Json, marshalItems (blurItems xs) = marshalItems xs
  | [] => rfl
  | x :: rest => by
      have empty : blurItems rest = [] ↔ rest = [] := by cases rest <;> simp [blurItems]
      rw [blurItems, marshalItems_cons, marshalItems_cons, marshal_blur x, marshalItems_blur rest]
      simp only [empty]

theorem marshalFields_blur : ∀ fs : List (Text × Json),
    marshalFields (blurFields fs) = marshalFields fs
  | [] => rfl
  | (k, x) :: rest => by
      have empty : blurFields rest = [] ↔ rest = [] := by
        cases rest with
        | nil => simp [blurFields]
        | cons f rest => simp [blurFields]
      rw [blurFields, marshalFields_cons, marshalFields_cons, quote_blur, marshal_blur x,
        marshalFields_blur rest]
      simp only [empty]

end

mutual

theorem plain_blur : ∀ {j : Json}, Numbers j → Plain (blur j)
  | .null, _ | .bool _, _ | .int _, _ => trivial
  | .num _, h => h
  | .str s, _ => blur_blur s
  | .arr _, h => plainItems_blur h
  | .obj _, h => plainFields_blur h

theorem plainItems_blur : ∀ {xs : List Json}, NumbersItems xs → PlainItems (blurItems xs)
  | [], _ => trivial
  | _ :: _, h => ⟨plain_blur h.1, plainItems_blur h.2⟩

theorem plainFields_blur : ∀ {fs : List (Text × Json)}, NumbersFields fs →
    PlainFields (blurFields fs)
  | [], _ => trivial
  | (k, _) :: _, h => ⟨blur_blur k, plain_blur h.1, plainFields_blur h.2⟩

end

/-- **Equal texts.** Two values with one text differ in their stray units alone. -/
theorem blur_eq_of_marshal {i j : Json} (hi : Numbers i) (hj : Numbers j)
    (h : marshal i = marshal j) : blur i = blur j := by
  refine (marshal_cancel (blur i) (blur j) [] [] (plain_blur hi) (plain_blur hj) trivial trivial
    ?_).1
  rw [marshal_blur, marshal_blur, h]

theorem scrubText_blur (s : Text) : scrubText s.blur = scrubText s := by
  unfold scrubText Text.blur
  rw [List.map_map]
  refine List.map_congr_left fun r _ => ?_
  cases r <;> rfl

mutual

theorem scrub_blur : ∀ j : Json, scrub (blur j) = scrub j
  | .null | .bool _ | .int _ | .num _ => rfl
  | .str s => congrArg Json.str (scrubText_blur s)
  | .arr xs => congrArg Json.arr (scrubItems_blur xs)
  | .obj fs => congrArg Json.obj (scrubFields_blur fs)

theorem scrubItems_blur : ∀ xs : List Json, scrubItems (blurItems xs) = scrubItems xs
  | [] => rfl
  | x :: rest => congrArg₂ List.cons (scrub_blur x) (scrubItems_blur rest)

theorem scrubFields_blur : ∀ fs : List (Text × Json), scrubFields (blurFields fs) = scrubFields fs
  | [] => rfl
  | (k, x) :: rest =>
      congrArg₂ List.cons (Prod.ext (scrubText_blur k) (scrub_blur x)) (scrubFields_blur rest)

end

/-- They read back alike. -/
theorem scrub_eq_of_marshal {i j : Json} (hi : Numbers i) (hj : Numbers j)
    (h : marshal i = marshal j) : scrub i = scrub j := by
  rw [← scrub_blur i, ← scrub_blur j, blur_eq_of_marshal hi hj h]

/-! ## The normal form -/

theorem valid_scrubText (s : Text) : valid (scrubText s) = true := by
  unfold valid scrubText
  rw [List.all_map, List.all_eq_true]
  intro r _
  cases r <;> rfl

mutual

/-- A value as it reads back: valid texts, the fields of each object in strict key order. -/
def Canonical : Json → Prop
  | .str s => valid s = true
  | .arr items => CanonicalItems items
  | .obj fields => CanonicalFields fields
  | _ => True

def CanonicalItems : List Json → Prop
  | [] => True
  | x :: rest => Canonical x ∧ CanonicalItems rest

def CanonicalFields : List (Text × Json) → Prop
  | [] => True
  | (k, x) :: rest => (valid k = true ∧ Canonical x ∧ ∀ f ∈ rest, Text.le k f.1 = true ∧ f.1 ≠ k) ∧
      CanonicalFields rest

end

/-- A field that is new goes to its place. -/
theorem canonicalFields_insert {k : Text} {x : Json} (key : valid k = true) (value : Canonical x) :
    ∀ {fs : List (Text × Json)}, CanonicalFields fs → (∀ f ∈ fs, f.1 ≠ k) →
      CanonicalFields (fs.orderedInsert (fun f g => Text.le f.1 g.1) (k, x))
  | [], _, _ => ⟨⟨key, value, nofun⟩, trivial⟩
  | (l, y) :: fs, h, fresh => by
      obtain ⟨⟨keyL, valueL, order⟩, rest⟩ := h
      rw [List.orderedInsert_cons]
      split
      · rename_i before
        refine ⟨⟨key, value, fun f member => ⟨?_, fresh f member⟩⟩, ⟨keyL, valueL, order⟩, rest⟩
        rcases List.mem_cons.mp member with rfl | member
        · exact before
        · exact Text.le_trans before (order f member).1
      · rename_i after
        refine ⟨⟨keyL, valueL, fun f member => ?_⟩, canonicalFields_insert key value rest
          fun f member => fresh f (List.mem_cons_of_mem _ member)⟩
        rcases (List.mem_orderedInsert _).mp member with rfl | member
        · exact ⟨(Text.le_total l k).resolve_right after, (fresh (l, y) List.mem_cons_self).symm⟩
        · exact order f member

mutual

theorem canonical_canon : ∀ j : Json, Canonical (canon j)
  | .null | .bool _ | .int _ | .num _ => trivial
  | .str s => valid_scrubText s
  | .arr xs => canonicalItems_canon xs
  | .obj fs => canonicalFields_canon fs

theorem canonicalItems_canon : ∀ xs : List Json, CanonicalItems (canonItems xs)
  | [] => trivial
  | x :: rest => ⟨canonical_canon x, canonicalItems_canon rest⟩

theorem canonicalFields_canon : ∀ fs : List (Text × Json), CanonicalFields (canonFields fs)
  | [] => trivial
  | (k, x) :: rest => by
      have later := canonicalFields_canon rest
      rw [canonFields]
      split
      · exact later
      · rename_i fresh
        refine canonicalFields_insert (valid_scrubText k) (canonical_canon x) later fun f member => ?_
        rw [List.any_eq_true, not_exists] at fresh
        exact fun same => fresh f ⟨member, beq_iff_eq.mpr same⟩

end

mutual

/-- Reading and writing leave the normal form alone. -/
theorem canon_of_canonical : ∀ {j : Json}, Canonical j → canon j = j
  | .null, _ | .bool _, _ | .int _, _ | .num _, _ => rfl
  | .str _, h => congrArg Json.str (scrubText_of_valid h)
  | .arr _, h => congrArg Json.arr (canonItems_of_canonical h)
  | .obj _, h => congrArg Json.obj (canonFields_of_canonical h)

theorem canonItems_of_canonical : ∀ {xs : List Json}, CanonicalItems xs → canonItems xs = xs
  | [], _ => rfl
  | _ :: _, h => congrArg₂ List.cons (canon_of_canonical h.1) (canonItems_of_canonical h.2)

theorem canonFields_of_canonical : ∀ {fs : List (Text × Json)}, CanonicalFields fs →
    canonFields fs = fs
  | [], _ => rfl
  | (k, x) :: rest, h => by
      obtain ⟨⟨key, value, order⟩, later⟩ := h
      have fresh : rest.any (fun f => f.1 == k) = false := by
        rw [List.any_eq_false]
        exact fun f member => by simpa using (order f member).2
      rw [canonFields, canonFields_of_canonical later, scrubText_of_valid key,
        canon_of_canonical value, fresh, if_neg nofun]
      cases rest with
      | nil => rfl
      | cons f rest => exact List.orderedInsert_cons_of_le _ _ (order f List.mem_cons_self).1

end

theorem canon_canon (j : Json) : canon (canon j) = canon j := canon_of_canonical (canonical_canon j)

mutual

theorem scrub_of_canonical : ∀ {j : Json}, Canonical j → scrub j = j
  | .null, _ | .bool _, _ | .int _, _ | .num _, _ => rfl
  | .str _, h => congrArg Json.str (scrubText_of_valid h)
  | .arr _, h => congrArg Json.arr (scrubItems_of_canonical h)
  | .obj _, h => congrArg Json.obj (scrubFields_of_canonical h)

theorem scrubItems_of_canonical : ∀ {xs : List Json}, CanonicalItems xs → scrubItems xs = xs
  | [], _ => rfl
  | _ :: _, h => congrArg₂ List.cons (scrub_of_canonical h.1) (scrubItems_of_canonical h.2)

theorem scrubFields_of_canonical : ∀ {fs : List (Text × Json)}, CanonicalFields fs →
    scrubFields fs = fs
  | [], _ => rfl
  | (_, _) :: _, h => congrArg₂ List.cons
      (Prod.ext (scrubText_of_valid h.1.1) (scrub_of_canonical h.1.2.1))
      (scrubFields_of_canonical h.2)

end

theorem scrub_canon (j : Json) : scrub (canon j) = canon j := scrub_of_canonical (canonical_canon j)

mutual

theorem numbers_canon : ∀ {j : Json}, Numbers j → Numbers (canon j)
  | .null, _ | .bool _, _ | .int _, _ | .str _, _ => trivial
  | .num _, h => h
  | .arr _, h => numbersItems_canon h
  | .obj _, h => numbersFields_iff.mpr (numbersFields_canon h)

theorem numbersItems_canon : ∀ {xs : List Json}, NumbersItems xs → NumbersItems (canonItems xs)
  | [], _ => trivial
  | _ :: _, h => ⟨numbers_canon h.1, numbersItems_canon h.2⟩

theorem numbersFields_canon : ∀ {fs : List (Text × Json)}, NumbersFields fs →
    ∀ f ∈ canonFields fs, Numbers f.2
  | [], _ => nofun
  | (k, x) :: rest, h => by
      have later := numbersFields_canon h.2
      rw [canonFields]
      split
      · exact later
      · intro f member
        rcases (List.mem_orderedInsert _).mp member with rfl | member
        · exact numbers_canon h.1
        · exact later f member

end

/-- No value starts with white space. -/
theorem kind_of_isSpace {r : Rune} (h : r.isSpace = true) : kind r = 7 := by
  cases r with
  | stray n => rfl
  | char c =>
    have apart : ∀ d : Char, Rune.isSpace (.char d) = false → c ≠ d := by
      rintro d visible rfl
      rw [h] at visible
      cases visible
    have letters : c ≠ 'n' ∧ c ≠ 't' ∧ c ≠ 'f' ∧ c ≠ '"' ∧ c ≠ '[' ∧ c ≠ '\x7b' ∧ c ≠ '-' :=
      ⟨apart _ rfl, apart _ rfl, apart _ rfl, apart _ rfl, apart _ rfl, apart _ rfl, apart _ rfl⟩
    obtain ⟨h1, h2, h3, h4, h5, h6, h7⟩ := letters
    have digit : c.isDigit = false := by
      simp only [Rune.isSpace, Bool.or_eq_true, Bool.and_eq_true, decide_eq_true_eq, beq_iff_eq] at h
      simp only [Char.isDigit, Bool.and_eq_false_iff, decide_eq_false_iff_not]
      have code : c.toNat = c.val.toNat := rfl
      by_contra both
      simp only [not_or, not_not, UInt32.le_iff_toNat_le] at both
      have bounds : 48 ≤ c.toNat ∧ c.toNat ≤ 57 := both
      omega
    simp [kind, h1, h2, h3, h4, h5, h6, h7, digit]

/-- So the text of a value is not blank. -/
theorem not_blank_marshal {j : Json} (h : Numbers j) : (marshal j).blank = false := by
  rw [← marshal_blur j]
  have head := marshal_kind (plain_blur h) []
  rw [List.append_nil] at head
  obtain ⟨r, first, own⟩ := Option.map_eq_some_iff.mp head
  obtain ⟨rest, same⟩ := List.head?_eq_some_iff.mp first
  have seven : kindOf (blur j) ≠ 7 := by
    cases blur j with
    | bool b => cases b <;> decide
    | _ => simp [kindOf]
  rw [same]
  unfold Text.blank
  rw [List.all_cons, Bool.and_eq_false_iff]
  refine .inl (Bool.eq_false_iff.mpr fun space => seven ?_)
  rw [← own, kind_of_isSpace space]

end Json

end Lib
