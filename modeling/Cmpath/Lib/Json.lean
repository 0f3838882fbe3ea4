import Cmpath.Lib.Text
import Mathlib.Data.List.Sort

/-!
# JSON values and Go's text of them

`Json` is the tree of a JSON value. `Json.marshal` is the text `encoding/json.Marshal` writes for
it: no white space, HTML characters escaped, a stray unit replaced by `\ufffd`. The fields of an
object are listed in the order they are written (a struct's own order, a map's key order).

The text of a value is not self-delimiting on its own (`1` begins `12`), but it is before a
delimiter: `marshal_cancel` reads a value back off any text that goes on with a delimiter, its
stray units alike. `lines_inj` is the same for a stream of values, one on each line.
-/

namespace Lib
open Text

/-- A JSON value. `int` is an integer, `num` any other number under the spelling it is written
    with (a float, a `json.Number`). -/
inductive Json where
  | null
  | bool (b : Bool)
  | int (n : Int)
  | num (spelling : List Char)
  | str (s : Text)
  | arr (items : List Json)
  | obj (fields : List (Text × Json))

namespace Json

/-- Lower-case hexadecimal digit of a number below sixteen. -/
def hexDigit (n : Nat) : Char := if n < 10 then Char.ofNat (48 + n) else Char.ofNat (87 + n)

/-- The four hexadecimal digits of a code unit. -/
def hex4 (n : Nat) : Text :=
  [n / 4096, n / 256 % 16, n / 16 % 16, n % 16].map fun d => .char (hexDigit d)

/-- The characters `Marshal` never writes as they are: quote and backslash, the control
    characters, the HTML characters and the two line separators. -/
def escaped (c : Char) : Bool :=
  c == '"' || c == '\\' || c.toNat < 0x20 || c == '<' || c == '>' || c == '&' ||
    c.toNat == 0x2028 || c.toNat == 0x2029

/-- The escapes written with one letter. -/
def shortEscape (c : Char) : Option Char :=
  if c == '"' then some '"' else if c == '\\' then some '\\'
  else if c.toNat == 8 then some 'b' else if c.toNat == 12 then some 'f'
  else if c.toNat == 10 then some 'n' else if c.toNat == 13 then some 'r'
  else if c.toNat == 9 then some 't' else none

/-- One unit inside a string, `appendString` of `encoding/json` with HTML escaping on. -/
def escape : Rune → Text
  | .char c =>
      if escaped c then
        match shortEscape c with
        | some e => [.char '\\', .char e]
        | none => .char '\\' :: .char 'u' :: hex4 c.toNat
      else [.char c]
  | .stray _ => lit "\\ufffd"

/-- A string with its quotes. -/
def quote (s : Text) : Text := .char '"' :: s.flatMap escape ++ [.char '"']

mutual

/-- The text `json.Marshal` writes. -/
def marshal : Json → Text
  | .null => lit "null"
  | .bool true => lit "true"
  | .bool false => lit "false"
  | .int n => ofInt n
  | .num spelling => spelling.map .char
  | .str s => quote s
  | .arr items => .char '[' :: marshalItems items
  | .obj fields => .char '\x7b' :: marshalFields fields

/-- The items of an array and its closing bracket. -/
def marshalItems : List Json → Text
  | [] => [.char ']']
  | [x] => marshal x ++ [.char ']']
  | x :: y :: rest => marshal x ++ .char ',' :: marshalItems (y :: rest)

/-- The fields of an object and its closing brace. -/
def marshalFields : List (Text × Json) → Text
  | [] => [.char '\x7d']
  | [(k, x)] => quote k ++ .char ':' :: marshal x ++ [.char '\x7d']
  | (k, x) :: f :: rest => quote k ++ .char ':' :: marshal x ++ .char ',' :: marshalFields (f :: rest)

end

/-- A text as it is read back from its JSON form: each stray unit has become U+FFFD. -/
def scrubText (s : Text) : Text :=
  s.map fun r => match r with | .char c => .char c | .stray _ => .char '\uFFFD'

mutual

/-- The value its own text decodes to. -/
def scrub : Json → Json
  | .null => .null
  | .bool b => .bool b
  | .int n => .int n
  | .num spelling => .num spelling
  | .str s => .str (scrubText s)
  | .arr items => .arr (scrubItems items)
  | .obj fields => .obj (scrubFields fields)

def scrubItems : List Json → List Json
  | [] => []
  | x :: rest => scrub x :: scrubItems rest

def scrubFields : List (Text × Json) → List (Text × Json)
  | [] => []
  | (k, x) :: rest => (scrubText k, scrub x) :: scrubFields rest

end

mutual

/-- A value as Go holds it in an `any` and writes it again: the fields of each object in key
    order, the last one of a repeated key, stray units replaced. -/
def canon : Json → Json
  | .null => .null
  | .bool b => .bool b
  | .int n => .int n
  | .num spelling => .num spelling
  | .str s => .str (scrubText s)
  | .arr items => .arr (canonItems items)
  | .obj fields => .obj (canonFields fields)

def canonItems : List Json → List Json
  | [] => []
  | x :: rest => canon x :: canonItems rest

def canonFields : List (Text × Json) → List (Text × Json)
  | [] => []
  | (k, x) :: rest =>
      let later := canonFields rest
      if later.any (·.1 == scrubText k) then later
      else later.orderedInsert (fun f g => Text.le f.1 g.1) (scrubText k, canon x)

end

mutual

/-- Every text in the value is valid: a Python `str` of it can be encoded. -/
def sound : Json → Bool
  | .str s => valid s
  | .arr items => soundItems items
  | .obj fields => soundFields fields
  | _ => true

def soundItems : List Json → Bool
  | [] => true
  | x :: rest => sound x && soundItems rest

def soundFields : List (Text × Json) → Bool
  | [] => true
  | (k, x) :: rest => valid k && sound x && soundFields rest

end

/-- The field of an object, if it has it. -/
def get? (key : Text) : Json → Option Json
  | .obj fields => (fields.find? fun f => f.1 == key).map Prod.snd
  | _ => none

/-- The text of a string value, Go's zero value otherwise. -/
def text : Json → Text
  | .str s => s
  | _ => []

/-- The number of an integer value, Go's zero value otherwise. -/
def integer : Json → Int
  | .int n => n
  | _ => 0

/-- The items of an array value, none otherwise. -/
def items : Json → List Json
  | .arr xs => xs
  | _ => []

/-- The fields of an object value; anything else has none. -/
def fields : Json → List (Text × Json)
  | .obj fs => fs
  | _ => []

/-- The truth value of a boolean, Go's zero value otherwise. -/
def truth : Json → Bool
  | .bool b => b
  | _ => false

/-! ## Reading a string back -/

/-- The value of a hexadecimal digit. -/
def hexValue (c : Char) : Nat := if c.toNat < 58 then c.toNat - 48 else c.toNat - 87

/-- Read one character of a string body. -/
def unescape : Text → Option (Char × Text)
  | .char '\\' :: .char 'u' :: .char a :: .char b :: .char c :: .char d :: rest =>
      some (Char.ofNat (hexValue a * 4096 + hexValue b * 256 + hexValue c * 16 + hexValue d), rest)
  | .char '\\' :: .char 'b' :: rest => some (Char.ofNat 8, rest)
  | .char '\\' :: .char 'f' :: rest => some (Char.ofNat 12, rest)
  | .char '\\' :: .char 'n' :: rest => some (Char.ofNat 10, rest)
  | .char '\\' :: .char 'r' :: rest => some (Char.ofNat 13, rest)
  | .char '\\' :: .char 't' :: rest => some (Char.ofNat 9, rest)
  | .char '\\' :: .char c :: rest => some (c, rest)
  | .char c :: rest => some (c, rest)
  | _ => none

/-- The characters written as `\u` and four digits. -/
def longEscaped : List Nat :=
  [0, 1, 2, 3, 4, 5, 6, 7, 11, 14, 15, 16, 17, 18, 19, 20, 21, 22, 23, 24, 25, 26, 27, 28, 29, 30,
    31, 38, 60, 62, 0x2028, 0x2029]

theorem char_eq_of_toNat {c : Char} {n : Nat} (h : c.toNat = n) : c = Char.ofNat n := by
  rw [← h, Char.ofNat_toNat]

theorem mem_longEscaped {c : Char} (h : escaped c = true) (s : shortEscape c = none) :
    c.toNat ∈ longEscaped := by
  have low : ∀ n < 32, n ∈ longEscaped ∨ n = 8 ∨ n = 9 ∨ n = 10 ∨ n = 12 ∨ n = 13 := by decide
  simp only [shortEscape] at s
  repeat' split at s <;> try cases s
  rename_i q b n8 n12 n10 n13 n9
  simp only [beq_iff_eq] at q b n8 n12 n10 n13 n9
  simp only [escaped, Bool.or_eq_true, beq_iff_eq, decide_eq_true_eq] at h
  rcases h with ((((((h | h) | h) | h) | h) | h) | h) | h
  · exact absurd h q
  · exact absurd h b
  · exact (low _ h).resolve_right (by simp [n8, n9, n10, n12, n13])
  all_goals first | (subst h; decide) | (rw [h]; decide)

theorem unescape_hex4 : ∀ n ∈ longEscaped, ∀ rest : Text,
    unescape (.char '\\' :: .char 'u' :: hex4 n ++ rest) = some (Char.ofNat n, rest) := by
  intro n member rest
  have digits : ∀ n ∈ longEscaped, hexValue (hexDigit (n / 4096)) * 4096 +
      hexValue (hexDigit (n / 256 % 16)) * 256 + hexValue (hexDigit (n / 16 % 16)) * 16 +
      hexValue (hexDigit (n % 16)) = n := by decide
  simp only [hex4, List.map_cons, List.map_nil, List.cons_append, List.nil_append, unescape,
    digits n member]

theorem unescape_escape (c : Char) (rest : Text) :
    unescape (escape (.char c) ++ rest) = some (c, rest) := by
  simp only [escape]
  split
  · rename_i special
    split
    · rename_i e short
      simp only [shortEscape] at short
      repeat' split at short
      all_goals cases short
      all_goals rename_i same
      all_goals simp only [beq_iff_eq] at same
      · subst same; rfl
      · subst same; rfl
      all_goals rw [char_eq_of_toNat same]; rfl
    · rename_i long
      rw [List.cons_append, List.cons_append, ← List.cons_append, ← List.cons_append,
        unescape_hex4 _ (mem_longEscaped special long), Char.ofNat_toNat]
  · rename_i plain
    have notBackslash : c ≠ '\\' := by
      rintro rfl
      exact plain (by decide)
    unfold unescape
    split <;> simp_all

theorem unescape_stray (n : Nat) (rest : Text) :
    unescape (escape (.stray n) ++ rest) = some ('\uFFFD', rest) := rfl

/-- One unit of a string body is read back; stray units are written alike. -/
theorem escape_cancel {a b : Rune} {s t : Text} (h : escape a ++ s = escape b ++ t) :
    a.blur = b.blur ∧ s = t := by
  have plain : ∀ n x y, escape (.stray n) ++ x ≠ escape (.char '\uFFFD') ++ y := by
    intro n x y same
    exact absurd (Rune.char.inj (List.cons.inj same).1) (by decide)
  have read := congrArg unescape h
  cases a with
  | char c =>
    cases b with
    | char d =>
      rw [unescape_escape, unescape_escape] at read
      obtain ⟨rfl, same⟩ := Prod.mk.inj (Option.some.inj read)
      exact ⟨rfl, same⟩
    | stray n =>
      rw [unescape_escape, unescape_stray] at read
      obtain ⟨rfl, _⟩ := Prod.mk.inj (Option.some.inj read)
      exact absurd h.symm (plain n t s)
  | stray m =>
    cases b with
    | char d =>
      rw [unescape_stray, unescape_escape] at read
      obtain ⟨rfl, _⟩ := Prod.mk.inj (Option.some.inj read)
      exact absurd h (plain m s t)
    | stray n => exact ⟨rfl, List.append_cancel_left h⟩

/-- An escaped unit never starts with the closing quote. -/
theorem escape_ne_quote (a : Rune) (rest tail : Text) : escape a ++ rest ≠ .char '"' :: tail := by
  cases a with
  | stray n =>
    intro h
    exact absurd (Rune.char.inj (List.cons.inj h).1) (by decide)
  | char c =>
    simp only [escape]
    split
    · split <;> simp
    · rename_i plain
      intro h
      have same : c = '"' := by simpa using (List.cons.inj h).1
      subst same
      exact plain (by decide)

/-- A string body is read back up to its closing quote. -/
theorem body_cancel : ∀ {s t : Text} {r q : Text},
    s.flatMap escape ++ .char '"' :: r = t.flatMap escape ++ .char '"' :: q →
      s.blur = t.blur ∧ r = q
  | [], [], _, _, h => ⟨rfl, (List.cons.inj h).2⟩
  | [], b :: t, _, _, h => by
      rw [List.flatMap_cons, List.append_assoc] at h
      exact absurd h.symm (escape_ne_quote b _ _)
  | a :: s, [], _, _, h => by
      rw [List.flatMap_cons, List.append_assoc] at h
      exact absurd h (escape_ne_quote a _ _)
  | a :: s, b :: t, _, _, h => by
      rw [List.flatMap_cons, List.flatMap_cons, List.append_assoc, List.append_assoc] at h
      obtain ⟨head, rest⟩ := escape_cancel h
      obtain ⟨tail, same⟩ := body_cancel rest
      exact ⟨by rw [blur_cons, blur_cons, head, tail], same⟩

/-- Before anything, the text of a string determines it up to its stray units. -/
theorem quote_cancel {s t r q : Text} (h : quote s ++ r = quote t ++ q) :
    s.blur = t.blur ∧ r = q := by
  simp only [quote, List.cons_append, List.append_assoc, List.nil_append, List.cons.injEq,
    true_and] at h
  exact body_cancel h

/-! ## Reading a value back -/

/-- The spelling of a number that is no integer: the characters of a number, not those of an
    integer. -/
structure Spelled (spelling : List Char) : Prop where
  start : ∃ c rest, spelling = c :: rest ∧ startsNumeral (.char c) = true
  numerals : ∀ c ∈ spelling, isNumeral (.char c) = true
  other : ∀ n : Int, ofInt n ≠ spelling.map .char

mutual

/-- A value whose texts tell no stray units apart and whose numbers are spelled as numbers. -/
def Plain : Json → Prop
  | .null => True
  | .bool _ => True
  | .int _ => True
  | .num spelling => Spelled spelling
  | .str s => s.blur = s
  | .arr items => PlainItems items
  | .obj fields => PlainFields fields

def PlainItems : List Json → Prop
  | [] => True
  | x :: rest => Plain x ∧ PlainItems rest

def PlainFields : List (Text × Json) → Prop
  | [] => True
  | (k, x) :: rest => k.blur = k ∧ Plain x ∧ PlainFields rest

end

/-- The units that may follow a value. -/
def isDelimiter (r : Rune) : Bool :=
  r == .char ',' || r == .char ']' || r == .char '\x7d' || r == .char '\n'

/-- The text ends or goes on with a delimiter. -/
def Delimited : Text → Prop
  | [] => True
  | r :: _ => isDelimiter r = true

/-- The first unit tells the kind of a value. -/
def kind : Rune → Nat
  | .char c =>
      if c == 'n' then 0 else if c == 't' then 1 else if c == 'f' then 2 else
      if c == '"' then 3 else if c == '[' then 4 else if c == '\x7b' then 5 else
      if c.isDigit || c == '-' then 6 else 7
  | .stray _ => 7

/-- The kind of a value. -/
def kindOf : Json → Nat
  | .null => 0
  | .bool true => 1
  | .bool false => 2
  | .int _ => 6
  | .num _ => 6
  | .str _ => 3
  | .arr _ => 4
  | .obj _ => 5

theorem kind_numeral {r : Rune} (h : startsNumeral r = true) : kind r = 6 := by
  cases r with
  | stray n => simp [startsNumeral] at h
  | char c =>
    simp only [startsNumeral, Bool.or_eq_true, beq_iff_eq] at h
    have letters : ∀ d ∈ ['n', 't', 'f', '"', '[', '\x7b'], c ≠ d := by
      intro d member same
      subst same
      simp only [List.mem_cons, List.not_mem_nil, or_false] at member
      rcases member with rfl | rfl | rfl | rfl | rfl | rfl <;> revert h <;> decide
    simp only [List.mem_cons, List.not_mem_nil, or_false, forall_eq_or_imp, forall_eq] at letters
    obtain ⟨h1, h2, h3, h4, h5, h6⟩ := letters
    simp only [kind, beq_iff_eq, h1, h2, h3, h4, h5, h6, if_false, Bool.or_eq_true]
    rw [if_pos h]

theorem marshal_kind {j : Json} (plain : Plain j) (r : Text) :
    (marshal j ++ r).head?.map kind = some (kindOf j) := by
  cases j with
  | null => rfl
  | bool b => cases b <;> rfl
  | int n =>
    simp only [marshal]
    cases h : ofInt n with
    | nil => exact absurd h (ofInt_ne_nil n)
    | cons d t =>
      have := kind_numeral (ofInt_starts h)
      simp [this, kindOf]
  | num s =>
    obtain ⟨c, rest, rfl, starts⟩ := plain.start
    simp [marshal, kind_numeral starts, kindOf]
  | str s => rfl
  | arr items => rfl
  | obj fields => rfl

theorem delimiter_not_numeral {r : Rune} (h : isDelimiter r = true) : isNumeral r = false := by
  simp only [isDelimiter, Bool.or_eq_true, beq_iff_eq] at h
  rcases h with ((rfl | rfl) | rfl) | rfl <;> decide

theorem delimited_takeWhile {r : Text} (h : Delimited r) : r.takeWhile isNumeral = [] := by
  cases r with
  | nil => rfl
  | cons d r => simp [delimiter_not_numeral h]

/-- The characters of a number end where the delimiter stands. -/
theorem numeral_cancel {s t r q : Text} (hs : ∀ x ∈ s, isNumeral x = true)
    (ht : ∀ x ∈ t, isNumeral x = true) (hr : Delimited r) (hq : Delimited q)
    (h : s ++ r = t ++ q) : s = t ∧ r = q := by
  have whole : ∀ {s r : Text}, (∀ x ∈ s, isNumeral x = true) → Delimited r →
      (s ++ r).takeWhile isNumeral = s := by
    intro s r hs hr
    rw [List.takeWhile_append_of_pos hs, delimited_takeWhile hr, List.append_nil]
  have same : s = t := by
    rw [← whole hs hr, ← whole ht hq, h]
  exact ⟨same, List.append_cancel_left (same ▸ h)⟩

theorem Spelled.all {spelling : List Char} (h : Spelled spelling) :
    ∀ x ∈ spelling.map Rune.char, isNumeral x = true := by
  intro x member
  obtain ⟨c, source, rfl⟩ := List.mem_map.mp member
  exact h.numerals c source

theorem marshalItems_cons (x : Json) (rest : List Json) :
    marshalItems (x :: rest) =
      marshal x ++ (if rest = [] then [.char ']'] else .char ',' :: marshalItems rest) := by
  cases rest with
  | nil => simp [marshalItems]
  | cons y rest => simp [marshalItems]

theorem marshalFields_cons (k : Text) (x : Json) (rest : List (Text × Json)) :
    marshalFields ((k, x) :: rest) = quote k ++ .char ':' :: (marshal x ++
      (if rest = [] then [.char '\x7d'] else .char ',' :: marshalFields rest)) := by
  cases rest with
  | nil => simp [marshalFields]
  | cons f rest => simp [marshalFields]

/-- A closing bracket starts no value. -/
theorem marshal_ne_close {j : Json} (plain : Plain j) (r t : Text) :
    marshal j ++ r ≠ .char ']' :: t := by
  intro h
  have := marshal_kind plain r
  rw [h] at this
  have seven : kind (.char ']') = 7 := by decide
  simp only [List.head?_cons, Option.map_some, seven, Option.some.injEq] at this
  cases j with
  | bool b => cases b <;> simp [kindOf] at this
  | _ => simp [kindOf] at this

mutual

/-- **Unique reading.** Before a delimiter, the text of a plain value determines the value and
    where it ends. -/
theorem marshal_cancel : ∀ (i j : Json) (r q : Text), Plain i → Plain j → Delimited r →
    Delimited q → marshal i ++ r = marshal j ++ q → i = j ∧ r = q := by
  intro i j r q hi hj hr hq h
  have kinds : kindOf i = kindOf j := by
    have := congrArg (fun t => t.head?.map kind) h
    simpa only [marshal_kind hi, marshal_kind hj, Option.some.injEq] using this
  cases i with
  | null =>
    cases j <;> try (simp [kindOf] at kinds)
    · exact ⟨rfl, List.append_cancel_left h⟩
    · rename_i b; cases b <;> simp at kinds
  | bool b =>
    cases j with
    | bool c =>
      have same : b = c := by cases b <;> cases c <;> simp [kindOf] at kinds ⊢
      subst same
      exact ⟨rfl, List.append_cancel_left h⟩
    | _ => cases b <;> simp [kindOf] at kinds
  | int m =>
    cases j <;> try (simp [kindOf] at kinds)
    · rename_i b; cases b <;> simp at kinds
    · obtain ⟨same, rest⟩ := numeral_cancel (fun _ => ofInt_numeral) (fun _ => ofInt_numeral) hr hq h
      exact ⟨by rw [ofInt_inj same], rest⟩
    · obtain ⟨same, _⟩ := numeral_cancel (fun _ => ofInt_numeral) (Spelled.all hj) hr hq h
      exact absurd same (hj.other m)
  | num s =>
    cases j <;> try (simp [kindOf] at kinds)
    · rename_i b; cases b <;> simp at kinds
    · obtain ⟨same, _⟩ := numeral_cancel (Spelled.all hi) (fun _ => ofInt_numeral) hr hq h
      exact absurd same.symm (hi.other _)
    · obtain ⟨same, rest⟩ := numeral_cancel (Spelled.all hi) (Spelled.all hj) hr hq h
      have inj : Function.Injective Rune.char := fun _ _ e => Rune.char.inj e
      exact ⟨by rw [inj.list_map same], rest⟩
  | str s =>
    cases j <;> try (simp [kindOf] at kinds)
    · rename_i b; cases b <;> simp at kinds
    · obtain ⟨same, rest⟩ := quote_cancel h
      rw [show _ = _ from hi, show _ = _ from hj] at same
      exact ⟨by rw [same], rest⟩
  | arr xs =>
    cases j <;> try (simp [kindOf] at kinds)
    · rename_i b; cases b <;> simp at kinds
    · obtain ⟨rfl, rest⟩ := marshalItems_cancel xs _ r q hi hj (List.cons.inj h).2
      exact ⟨rfl, rest⟩
  | obj fs =>
    cases j <;> try (simp [kindOf] at kinds)
    · rename_i b; cases b <;> simp at kinds
    · obtain ⟨rfl, rest⟩ := marshalFields_cancel fs _ r q hi hj (List.cons.inj h).2
      exact ⟨rfl, rest⟩

theorem marshalItems_cancel : ∀ (xs ys : List Json) (r q : Text), PlainItems xs → PlainItems ys →
    marshalItems xs ++ r = marshalItems ys ++ q → xs = ys ∧ r = q
  | [], [], r, q, _, _, h => ⟨rfl, (List.cons.inj h).2⟩
  | [], y :: ys, r, q, _, hy, h => by
      rw [marshalItems_cons, List.append_assoc] at h
      exact absurd h.symm (marshal_ne_close hy.1 _ _)
  | x :: xs, [], r, q, hx, _, h => by
      rw [marshalItems_cons, List.append_assoc] at h
      exact absurd h (marshal_ne_close hx.1 _ _)
  | x :: xs, y :: ys, r, q, hx, hy, h => by
      rw [marshalItems_cons, marshalItems_cons, List.append_assoc, List.append_assoc] at h
      obtain ⟨rfl, rest⟩ := marshal_cancel x y _ _ hx.1 hy.1
        (by split <;> rfl) (by split <;> rfl) h
      cases xs with
      | nil =>
        cases ys with
        | nil => exact ⟨rfl, by simpa using rest⟩
        | cons y' ys => simp at rest
      | cons x' xs =>
        cases ys with
        | nil => simp at rest
        | cons y' ys =>
          obtain ⟨same, tail⟩ := marshalItems_cancel (x' :: xs) (y' :: ys) r q hx.2 hy.2
            (by simpa using rest)
          exact ⟨by rw [same], tail⟩

theorem marshalFields_cancel : ∀ (fs gs : List (Text × Json)) (r q : Text), PlainFields fs →
    PlainFields gs → marshalFields fs ++ r = marshalFields gs ++ q → fs = gs ∧ r = q
  | [], [], r, q, _, _, h => ⟨rfl, (List.cons.inj h).2⟩
  | [], (k, y) :: gs, r, q, _, _, h => by
      rw [marshalFields_cons] at h
      simp [marshalFields, quote] at h
  | (k, x) :: fs, [], r, q, _, _, h => by
      rw [marshalFields_cons] at h
      simp [marshalFields, quote] at h
  | (k, x) :: fs, (l, y) :: gs, r, q, hf, hg, h => by
      rw [marshalFields_cons, marshalFields_cons, List.append_assoc, List.append_assoc] at h
      obtain ⟨key, colon⟩ := quote_cancel h
      rw [hf.1, hg.1] at key
      subst key
      rw [List.cons_append, List.cons_append] at colon
      have value := (List.cons.inj colon).2
      rw [List.append_assoc, List.append_assoc] at value
      obtain ⟨rfl, rest⟩ := marshal_cancel x y _ _ hf.2.1 hg.2.1
        (by split <;> rfl) (by split <;> rfl) value
      cases fs with
      | nil =>
        cases gs with
        | nil => exact ⟨rfl, by simpa using rest⟩
        | cons g gs => simp at rest
      | cons f fs =>
        cases gs with
        | nil => simp at rest
        | cons g gs =>
          obtain ⟨same, tail⟩ := marshalFields_cancel (f :: fs) (g :: gs) r q hf.2.2 hg.2.2
            (by simpa using rest)
          exact ⟨by rw [same], tail⟩

end

/-- Values one on each line, as `json.Encoder.Encode` writes them to a stream. -/
def lines (values : List Json) : Text := values.flatMap fun j => marshal j ++ [.char '\n']

/-- A value never starts with the line break that ends it. -/
theorem marshal_ne_nil {j : Json} (plain : Plain j) (r : Text) : marshal j ++ r ≠ [] := by
  intro h
  have := marshal_kind plain r
  rw [h] at this
  simp at this

/-- A stream of plain values is read back line by line. -/
theorem lines_inj : ∀ {xs ys : List Json}, (∀ x ∈ xs, Plain x) → (∀ y ∈ ys, Plain y) →
    lines xs = lines ys → xs = ys
  | [], [], _, _, _ => rfl
  | [], y :: ys, _, hy, h => by
      simp only [lines, List.flatMap_nil, List.flatMap_cons, List.append_assoc] at h
      exact absurd h.symm (marshal_ne_nil (hy y (by simp)) _)
  | x :: xs, [], hx, _, h => by
      simp only [lines, List.flatMap_nil, List.flatMap_cons, List.append_assoc] at h
      exact absurd h (marshal_ne_nil (hx x (by simp)) _)
  | x :: xs, y :: ys, hx, hy, h => by
      simp only [lines, List.flatMap_cons, List.append_assoc, List.cons_append,
        List.nil_append] at h
      obtain ⟨rfl, rest⟩ := marshal_cancel x y _ _ (hx x (by simp)) (hy y (by simp))
        (by rfl) (by rfl) h
      have tail : lines xs = lines ys := (List.cons.inj rest).2
      rw [lines_inj (fun z m => hx z (by simp [m])) (fun z m => hy z (by simp [m])) tail]

/-! ## What `Marshal` writes is valid -/

/-- A valid text reads back as it is. -/
theorem scrubText_of_valid : ∀ {s : Text}, valid s = true → scrubText s = s
  | [], _ => rfl
  | .stray _ :: _, h => by simp [valid, Rune.isScalar] at h
  | .char c :: rest, h => by
      rw [valid_cons] at h
      show Rune.char c :: scrubText rest = _
      rw [scrubText_of_valid h]

theorem valid_escape (r : Rune) : valid (escape r) = true := by
  cases r with
  | stray n => rfl
  | char c =>
    simp only [escape]
    split
    · split
      · rfl
      · simp [valid, hex4, Rune.isScalar]
    · rfl

theorem valid_quote (s : Text) : valid (quote s) = true := by
  have body : valid (s.flatMap escape) = true := by
    induction s with
    | nil => rfl
    | cons r s ih => rw [List.flatMap_cons, valid_append, valid_escape, ih]; rfl
  rw [quote, List.cons_append, valid_cons, valid_append, body]
  rfl

mutual

/-- Whatever texts a value holds, what `Marshal` writes for it is valid UTF-8. -/
theorem valid_marshal : ∀ j : Json, valid (marshal j) = true
  | .null => rfl
  | .bool true => rfl
  | .bool false => rfl
  | .int n => valid_ofInt n
  | .num spelling => valid_iff_chars.mpr ⟨spelling, rfl⟩
  | .str s => valid_quote s
  | .arr items => by
      rw [marshal, valid_cons, valid_marshalItems items]
      rfl
  | .obj fields => by
      rw [marshal, valid_cons, valid_marshalFields fields]
      rfl

theorem valid_marshalItems : ∀ xs : List Json, valid (marshalItems xs) = true
  | [] => rfl
  | x :: rest => by
      rw [marshalItems_cons, valid_append, valid_marshal x]
      split
      · rfl
      · rw [valid_cons, valid_marshalItems rest]
        rfl

theorem valid_marshalFields : ∀ fs : List (Text × Json), valid (marshalFields fs) = true
  | [] => rfl
  | (k, x) :: rest => by
      rw [marshalFields_cons, valid_append, valid_quote, valid_cons, valid_append,
        valid_marshal x]
      split
      · rfl
      · rw [valid_cons, valid_marshalFields rest]
        rfl

end

end Json

end Lib
