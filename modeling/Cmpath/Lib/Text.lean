import Mathlib.Algebra.GroupWithZero.Nat
import Mathlib.Algebra.Ring.Int.Defs
import Mathlib.Data.List.DropRight
import Mathlib.Data.List.Lex

/-!
# Texts of two host languages

A Go `string` is a sequence of bytes and a Python `str` a sequence of code points, and neither
has to be valid Unicode. `Text` keeps what a loop over either of them sees: scalar values, and
units that are no scalar value (a byte that starts no valid encoding, a lone surrogate).
-/

namespace Lib

/-- One unit of a text: a scalar value, or a stray unit (an invalid byte of a Go string, a lone
    surrogate of a Python one). -/
inductive Rune where
  | char (c : Char)
  | stray (n : Nat)
  deriving DecidableEq, Repr

/-- A text, unit by unit. -/
abbrev Text := List Rune

namespace Rune

/-- Bytes of the UTF-8 form; a stray unit is the one byte it was read from. -/
def size : Rune → Nat
  | .char c => c.utf8Size
  | .stray _ => 1

/-- The unit is a scalar value. -/
def isScalar : Rune → Bool
  | .char _ => true
  | .stray _ => false

/-- All stray units alike. -/
def blur : Rune → Rune
  | .char c => .char c
  | .stray _ => .stray 0

/-- A lower-case hexadecimal digit. -/
def isHex : Rune → Bool
  | .char c => (48 ≤ c.toNat && c.toNat ≤ 57) || (97 ≤ c.toNat && c.toNat ≤ 102)
  | .stray _ => false

/-- White space as Go's `unicode.IsSpace` has it; a stray unit reads as U+FFFD, which is none. -/
def isSpace : Rune → Bool
  | .char c =>
      let n := c.toNat
      (9 ≤ n && n ≤ 13) || n == 0x20 || n == 0x85 || n == 0xA0 || n == 0x1680 ||
        (0x2000 ≤ n && n ≤ 0x200A) || n == 0x2028 || n == 0x2029 || n == 0x202F ||
        n == 0x205F || n == 0x3000
  | .stray _ => false

/-- White space as Python's `str.strip` has it, with the four information separators. -/
def isStripped (r : Rune) : Bool :=
  r.isSpace || match r with
    | .char c => 28 ≤ c.toNat && c.toNat ≤ 31
    | .stray _ => false

/-- The place of a unit in byte order: scalar values in code point order, stray units last. -/
def rank : Rune → Nat
  | .char c => c.toNat
  | .stray n => 0x110000 + n

end Rune

namespace Text

/-- The text of a literal. -/
def lit (s : String) : Text := s.toList.map .char

/-- Length in bytes, Go's `len`. -/
def size (t : Text) : Nat := (t.map Rune.size).sum

/-- Every unit is a scalar value (`utf8.ValidString`). -/
def valid (t : Text) : Bool := t.all Rune.isScalar

/-- Nothing is left after trimming white space (`strings.TrimSpace(t) == ""`). -/
def blank (t : Text) : Bool := t.all Rune.isSpace

/-- Python's `str.strip()`. -/
def strip (t : Text) : Text :=
  ((t.dropWhile Rune.isStripped).reverse.dropWhile Rune.isStripped).reverse

/-- The maximal runs of units with a property, after the part of a run already read. -/
def runsFrom (p : Rune → Bool) (read : Text) : Text → List Text
  | [] => if read.isEmpty then [] else [read]
  | r :: rest =>
      if p r then runsFrom p (read ++ [r]) rest
      else if read.isEmpty then runsFrom p [] rest
      else read :: runsFrom p [] rest

/-- The maximal runs of units with a property: `strings.FieldsFunc` of the units without it,
    `re.findall` of a repeated class. -/
def runs (p : Rune → Bool) (t : Text) : List Text := runsFrom p [] t

/-- `strings.Join` and `str.join`. -/
def join (separator : Text) (parts : List Text) : Text := separator.intercalate parts

/-- Byte order on texts. -/
def le (a b : Text) : Bool := decide (a.map Rune.rank ≤ b.map Rune.rank)

/-- The text with its stray units all alike. -/
def blur (t : Text) : Text := t.map Rune.blur

theorem blur_cons (r : Rune) (t : Text) : blur (r :: t) = r.blur :: blur t := rfl

/-- Decimal digits of a natural number. -/
def ofNat (n : Nat) : Text := (Nat.toDigits 10 n).map .char

/-- Decimal form of an integer. -/
def ofInt : Int → Text
  | .ofNat n => ofNat n
  | .negSucc n => .char '-' :: ofNat (n + 1)

/-- Decimal digits padded with zeros on the left to a width. -/
def padded (width n : Nat) : Text :=
  List.replicate (width - (ofNat n).length) (.char '0') ++ ofNat n

theorem valid_append (a b : Text) : valid (a ++ b) = (valid a && valid b) := by
  simp [valid]

theorem size_of_hex : ∀ {t : Text}, (∀ r ∈ t, r.isHex = true) → t.size = t.length
  | [], _ => rfl
  | r :: rest, hex => by
      have later := size_of_hex fun s member => hex s (List.mem_cons_of_mem _ member)
      have one : r.size = 1 := by
        have digit := hex r List.mem_cons_self
        cases r with
        | stray n => rfl
        | char c =>
          have ascii : c.toNat ≤ 127 := by
            simp only [Rune.isHex, Bool.or_eq_true, Bool.and_eq_true, decide_eq_true_eq] at digit
            omega
          show c.utf8Size = 1
          unfold Char.utf8Size
          rw [if_pos (by exact ascii)]
      unfold size at later ⊢
      rw [List.map_cons, List.sum_cons, later, one, List.length_cons, Nat.add_comm]

theorem valid_cons (r : Rune) (t : Text) : valid (r :: t) = (r.isScalar && valid t) := by
  simp [valid]

@[simp] theorem valid_nil : valid [] = true := rfl

/-- What is left of a valid text is valid. -/
theorem valid_of_subset {s t : Text} (sub : s ⊆ t) (h : valid t = true) : valid s = true := by
  unfold valid at h ⊢
  rw [List.all_eq_true] at h ⊢
  exact fun r member => h r (sub member)

/-- A text of scalar values is the image of a list of characters. -/
theorem valid_iff_chars {t : Text} : valid t = true ↔ ∃ cs : List Char, t = cs.map .char := by
  constructor
  · intro h
    induction t with
    | nil => exact ⟨[], rfl⟩
    | cons r t ih =>
      rw [valid_cons, Bool.and_eq_true] at h
      obtain ⟨cs, rfl⟩ := ih h.2
      cases r with
      | char c => exact ⟨c :: cs, rfl⟩
      | stray n => simp [Rune.isScalar] at h
  · rintro ⟨cs, rfl⟩
    simp [valid, Rune.isScalar]

/-- A text of scalar values has no stray units to tell apart. -/
theorem blur_of_valid {t : Text} (h : valid t = true) : t.blur = t := by
  obtain ⟨cs, rfl⟩ := valid_iff_chars.mp h
  simp [blur, Rune.blur]

theorem valid_of_hex {t : Text} (h : ∀ r ∈ t, r.isHex = true) : valid t = true := by
  unfold valid
  rw [List.all_eq_true]
  intro r member
  have digit := h r member
  cases r with
  | char c => rfl
  | stray n => cases digit

/-- A stripped text begins with what is not stripped. -/
theorem strip_front (t : Text) : t.strip.dropWhile Rune.isStripped = t.strip := by
  rw [List.dropWhile_eq_self_iff]
  intro some_
  have part : t.strip <+: t.dropWhile Rune.isStripped := List.rdropWhile_prefix _ _
  have first := List.head?_dropWhile_not Rune.isStripped t
  obtain ⟨rest, whole⟩ := part
  rw [← whole, List.head?_append_of_ne_nil _ (List.ne_nil_of_length_pos some_),
    List.head?_eq_getElem?, List.getElem?_eq_getElem some_] at first
  simpa using first

/-- A stripped text has nothing left to strip. -/
theorem strip_strip (t : Text) : t.strip.strip = t.strip := by
  have both : t.strip.strip = (t.strip.dropWhile Rune.isStripped).rdropWhile Rune.isStripped := rfl
  rw [both, strip_front]
  exact List.rdropWhile_idempotent _ _

/-- A stripped text that is cut short is not blank. -/
theorem strip_take {t : Text} {n : Nat} (spoken : t.strip ≠ []) (room : 0 < n) :
    strip (t.strip.take n) ≠ [] := by
  have front := strip_front t
  cases content : t.strip with
  | nil => exact absurd content spoken
  | cons r rest =>
    rw [content, List.dropWhile_eq_self_iff] at front
    have first : Rune.isStripped r = false := by
      rw [← Bool.not_eq_true]
      exact front (Nat.zero_lt_succ _)
    cases n with
    | zero => exact absurd room (Nat.lt_irrefl 0)
    | succ n =>
      have kept : strip ((r :: rest).take (n + 1)) =
          (((r :: rest).take (n + 1)).dropWhile Rune.isStripped).rdropWhile Rune.isStripped := rfl
      rw [kept, List.take_succ_cons, List.dropWhile_cons_of_neg (by simp [first]), Ne,
        List.rdropWhile_eq_nil_iff]
      intro all
      rw [all r List.mem_cons_self] at first
      cases first

theorem valid_lit (s : String) : valid (lit s) = true :=
  valid_iff_chars.mpr ⟨s.toList, rfl⟩

/-- A character of a JSON number. -/
def isNumeral : Rune → Bool
  | .char c => c.isDigit || c == '-' || c == '+' || c == '.' || c == 'e' || c == 'E'
  | .stray _ => false

/-- A character a JSON number may start with. -/
def startsNumeral : Rune → Bool
  | .char c => c.isDigit || c == '-'
  | .stray _ => false

theorem ofNat_digits {n : Nat} {r : Rune} (h : r ∈ ofNat n) : ∃ c, r = .char c ∧ c.isDigit := by
  obtain ⟨c, hc, rfl⟩ := List.mem_map.mp h
  exact ⟨c, rfl, Nat.isDigit_of_mem_toDigits (by omega) (by omega) hc⟩

theorem ofNat_inj {m n : Nat} (h : ofNat m = ofNat n) : m = n := by
  have inj : Function.Injective Rune.char := fun _ _ e => Rune.char.inj e
  have digits : Nat.toDigits 10 m = Nat.toDigits 10 n := inj.list_map h
  have values := congrArg (fun ds => Nat.ofDigitChars 10 ds 0) digits
  simpa only [Nat.ofDigitChars_toDigits (b := 10) (by omega) (by omega)] using values

theorem ofNat_ne_nil (n : Nat) : ofNat n ≠ [] := by
  simp [ofNat, Nat.toDigits_ne_nil]

theorem ofInt_numeral {n : Int} {r : Rune} (h : r ∈ ofInt n) : isNumeral r = true := by
  cases n with
  | ofNat n =>
    obtain ⟨c, rfl, hc⟩ := ofNat_digits h
    simp [isNumeral, hc]
  | negSucc n =>
    rcases List.mem_cons.mp h with rfl | h
    · rfl
    · obtain ⟨c, rfl, hc⟩ := ofNat_digits h
      simp [isNumeral, hc]

theorem ofInt_starts {n : Int} {r : Rune} {t : Text} (h : ofInt n = r :: t) :
    startsNumeral r = true := by
  cases n with
  | ofNat n =>
    obtain ⟨c, rfl, hc⟩ := ofNat_digits (n := n) (r := r) (by rw [← ofInt, h]; simp)
    simp [startsNumeral, hc]
  | negSucc n =>
    rw [ofInt] at h
    rw [← (List.cons.inj h).1]
    rfl

theorem ofInt_ne_nil (n : Int) : ofInt n ≠ [] := by
  cases n with
  | ofNat n => exact ofNat_ne_nil n
  | negSucc n => exact List.cons_ne_nil _ _

/-- No natural number starts with a minus sign. -/
theorem ofNat_ne_minus {m : Nat} {t : Text} : ofNat m ≠ .char '-' :: t := by
  intro h
  obtain ⟨c, hc, digit⟩ := ofNat_digits (n := m) (r := .char '-') (by rw [h]; simp)
  cases hc
  exact absurd digit (by decide)

theorem ofInt_inj {m n : Int} (h : ofInt m = ofInt n) : m = n := by
  cases m with
  | ofNat m =>
    cases n with
    | ofNat n => rw [ofNat_inj h]
    | negSucc n => exact absurd h ofNat_ne_minus
  | negSucc m =>
    cases n with
    | ofNat n => exact absurd h.symm ofNat_ne_minus
    | negSucc n =>
      have := ofNat_inj (List.cons.inj h).2
      congr 1
      omega

theorem valid_ofNat (n : Nat) : valid (ofNat n) = true :=
  valid_iff_chars.mpr ⟨_, rfl⟩

theorem valid_ofInt (n : Int) : valid (ofInt n) = true := by
  cases n with
  | ofNat n => exact valid_ofNat n
  | negSucc n => rw [ofInt, valid_cons, valid_ofNat]; rfl

theorem valid_padded (width n : Nat) : valid (padded width n) = true := by
  rw [padded, valid_append, valid_ofNat]
  simp [valid, Rune.isScalar]

end Text

end Lib
