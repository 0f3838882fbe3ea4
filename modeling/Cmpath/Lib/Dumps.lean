import Cmpath.Lib.Json

/-!
# Python's JSON

`Json.dumps` is the text `json.dumps(value, ensure_ascii=False, separators=(",", ":"))` writes and
`Json.loads` what `json.loads` reads. A text of strings, arrays and objects without repeated keys
is read back as it was written (`loads_dumps`).
-/

namespace Lib
open Text

namespace Json

/-! ## Writing -/

/-- One unit inside a string (`py_encode_basestring`): quote, backslash and the control characters
    are escaped, anything else stays, lone surrogates too. -/
def pyEscape : Rune → Text
  | .char c =>
      match shortEscape c with
      | some e => [.char '\\', .char e]
      | none => if c.toNat < 0x20 then .char '\\' :: .char 'u' :: hex4 c.toNat else [.char c]
  | .stray n => [.stray n]

/-- A string with its quotes. -/
def pyQuote (s : Text) : Text := .char '"' :: s.flatMap pyEscape ++ [.char '"']

mutual

/-- The text `json.dumps` writes; a float is under the spelling `repr` gives it. -/
def dumps : Json → Text
  | .null => lit "null"
  | .bool true => lit "true"
  | .bool false => lit "false"
  | .int n => ofInt n
  | .num spelling => spelling.map .char
  | .str s => pyQuote s
  | .arr items => .char '[' :: dumpsItems items
  | .obj fields => .char '\x7b' :: dumpsFields fields

def dumpsItems : List Json → Text
  | [] => [.char ']']
  | [x] => dumps x ++ [.char ']']
  | x :: y :: rest => dumps x ++ .char ',' :: dumpsItems (y :: rest)

def dumpsFields : List (Text × Json) → Text
  | [] => [.char '\x7d']
  | [(k, x)] => pyQuote k ++ .char ':' :: dumps x ++ [.char '\x7d']
  | (k, x) :: f :: rest => pyQuote k ++ .char ':' :: dumps x ++ .char ',' :: dumpsFields (f :: rest)

end

/-! ## Reading -/

/-- White space between tokens. -/
def skipSpace (t : Text) : Text :=
  t.dropWhile fun r => r == .char ' ' || r == .char '\t' || r == .char '\n' || r == .char '\r'

/-- The value of a hexadecimal digit, in either case. -/
def hexDigit? : Rune → Option Nat
  | .char c =>
      if 48 ≤ c.toNat && c.toNat ≤ 57 then some (c.toNat - 48)
      else if 97 ≤ c.toNat && c.toNat ≤ 102 then some (c.toNat - 87)
      else if 65 ≤ c.toNat && c.toNat ≤ 70 then some (c.toNat - 55)
      else none
  | .stray _ => none

/-- The code unit four hexadecimal digits stand for. -/
def codeUnit? (a b c d : Rune) : Option Nat := do
  let a ← hexDigit? a
  let b ← hexDigit? b
  let c ← hexDigit? c
  let d ← hexDigit? d
  some (a * 4096 + b * 256 + c * 16 + d)

/-- A code point as a unit of a text. -/
def codePoint (n : Nat) : Rune := if n.isValidChar then .char (Char.ofNat n) else .stray n

/-- The low surrogate of an escape that comes next, and what follows it. -/
def lowSurrogate? : Text → Option (Nat × Text)
  | .char '\\' :: .char 'u' :: a :: b :: c :: d :: rest =>
      match codeUnit? a b c d with
      | some n => if 0xDC00 ≤ n && n ≤ 0xDFFF then some (n, rest) else none
      | none => none
  | _ => none

/-- The escapes of one letter. -/
def letterEscape? (c : Char) : Option Char :=
  if c == '"' || c == '\\' || c == '/' then some c
  else if c == 'b' then some (Char.ofNat 8) else if c == 'f' then some (Char.ofNat 12)
  else if c == 'n' then some (Char.ofNat 10) else if c == 'r' then some (Char.ofNat 13)
  else if c == 't' then some (Char.ofNat 9) else none

/-- What a backslash begins; two escaped surrogates that belong together are one unit. -/
def escape? : Text → Option (Rune × Text)
  | .char 'u' :: a :: b :: c :: d :: rest =>
      match codeUnit? a b c d with
      | none => none
      | some high =>
          if 0xD800 ≤ high && high ≤ 0xDBFF then
            match lowSurrogate? rest with
            | some (low, rest) =>
                some (codePoint (0x10000 + (high - 0xD800) * 1024 + (low - 0xDC00)), rest)
            | none => some (codePoint high, rest)
          else some (codePoint high, rest)
  | .char c :: rest => (letterEscape? c).map fun e => (.char e, rest)
  | _ => none

/-- One unit of a string; a control character must be escaped. -/
def unit? : Text → Option (Rune × Text)
  | [] => none
  | .stray n :: rest => some (.stray n, rest)
  | .char c :: rest =>
      if c == '\\' then escape? rest else if c.toNat < 0x20 then none else some (.char c, rest)

/-- A string up to its closing quote; the number bounds its length. -/
def string? : Nat → Text → Option (Text × Text)
  | 0, _ => none
  | n + 1, t =>
      if t.head? = some (.char '"') then some ([], t.tail)
      else do
        let (r, rest) ← unit? t
        let (s, rest) ← string? n rest
        some (r :: s, rest)

/-- A decimal digit. -/
def isDecimal : Rune → Bool
  | .char c => 48 ≤ c.toNat && c.toNat ≤ 57
  | .stray _ => false

/-- A mark and the digits after it, nothing where they do not match. -/
def marked (mark : Text → Option (Text × Text)) (t : Text) : Text × Text :=
  match mark t with
  | none => ([], t)
  | some (read, rest) =>
      match rest.takeWhile isDecimal with
      | [] => ([], t)
      | digits => (read ++ digits, rest.dropWhile isDecimal)

/-- The point of a fraction. -/
def point? : Text → Option (Text × Text)
  | .char '.' :: rest => some ([.char '.'], rest)
  | _ => none

/-- The letter of an exponent and its sign. -/
def exponent? : Text → Option (Text × Text)
  | .char e :: .char s :: rest =>
      if e == 'e' || e == 'E' then
        if s == '-' || s == '+' then some ([.char e, .char s], rest)
        else some ([.char e], .char s :: rest)
      else none
  | _ => none

/-- The value of decimal digits. -/
def decimal (digits : Text) : Nat :=
  digits.foldl (fun n r => match r with | .char c => 10 * n + (c.toNat - 48) | .stray _ => n) 0

/-- A number (`NUMBER_RE`): digits, and a float when a fraction or an exponent follows. -/
def number? (t : Text) : Option (Json × Text) :=
  let negative := t.head? = some (.char '-')
  let unsigned := if negative then t.tail else t
  let digits := if unsigned.head? = some (.char '0') then [.char '0']
    else unsigned.takeWhile isDecimal
  if digits = [] then none
  else
    let rest := unsigned.drop digits.length
    let fraction := marked point? rest
    let exponent := marked exponent? fraction.2
    if fraction.1 = [] && exponent.1 = [] then
      some (.int (if negative then -(decimal digits : Int) else decimal digits), rest)
    else
      let sign : Text := if negative then [.char '-'] else []
      let spelling := sign ++ digits ++ fraction.1 ++ exponent.1
      some (.num (spelling.filterMap fun r => match r with | .char c => some c | .stray _ => none),
        exponent.2)

/-- The words that stand for a value. -/
def literals : List (Text × Json) :=
  [(lit "null", .null), (lit "true", .bool true), (lit "false", .bool false),
    (lit "NaN", .num "nan".toList), (lit "Infinity", .num "inf".toList),
    (lit "-Infinity", .num "-inf".toList)]

/-- Put a key into a dictionary: a key that is there keeps its place. -/
def assign (fields : List (Text × Json)) (key : Text) (value : Json) : List (Text × Json) :=
  if fields.any (·.1 == key) then
    fields.map fun f => if f.1 == key then (key, value) else f
  else fields ++ [(key, value)]

/-- A dictionary of pairs. -/
def dict (pairs : List (Text × Json)) : List (Text × Json) :=
  pairs.foldl (fun fields f => assign fields f.1 f.2) []

mutual

/-- A value at the start of a text; the number bounds its length. -/
def value? : Nat → Text → Option (Json × Text)
  | 0, _ => none
  | n + 1, t =>
      match t with
      | .char '"' :: rest => do
          let (s, rest) ← string? (rest.length + 1) rest
          some (.str s, rest)
      | .char '[' :: rest =>
          match skipSpace rest with
          | .char ']' :: rest => some (.arr [], rest)
          | body => do
              let (xs, rest) ← items? n body
              some (.arr xs, rest)
      | .char '\x7b' :: rest =>
          match skipSpace rest with
          | .char '\x7d' :: rest => some (.obj [], rest)
          | body => do
              let (fs, rest) ← members? n body
              some (.obj (dict fs), rest)
      | t =>
          match literals.find? fun l => l.1.isPrefixOf t with
          | some l => some (l.2, t.drop l.1.length)
          | none => number? t

/-- The items of an array from the next one on. -/
def items? : Nat → Text → Option (List Json × Text)
  | 0, _ => none
  | n + 1, t => do
      let (x, rest) ← value? n t
      match skipSpace rest with
      | .char ']' :: rest => some ([x], rest)
      | .char ',' :: rest => do
          let (xs, rest) ← items? n (skipSpace rest)
          some (x :: xs, rest)
      | _ => none

/-- The members of an object from the next one on. -/
def members? : Nat → Text → Option (List (Text × Json) × Text)
  | 0, _ => none
  | n + 1, t =>
      match t with
      | .char '"' :: rest => do
          let (k, rest) ← string? (rest.length + 1) rest
          match skipSpace rest with
          | .char ':' :: rest => do
              let (x, rest) ← value? n (skipSpace rest)
              match skipSpace rest with
              | .char '\x7d' :: rest => some ([(k, x)], rest)
              | .char ',' :: rest => do
                  let (fs, rest) ← members? n (skipSpace rest)
                  some ((k, x) :: fs, rest)
              | _ => none
          | _ => none
      | _ => none

end

/-- The value of a text that holds nothing else. -/
def loads (t : Text) : Option Json :=
  match value? (t.length + 1) (skipSpace t) with
  | some (j, rest) => if skipSpace rest = [] then some j else none
  | none => none

/-! ## Values between the two -/

mutual

/-- A value as `json.loads` holds it: the last value of a repeated key in the place of the first,
    each float under the spelling `repr` gives it. -/
def held (repr : List Char → List Char) : Json → Json
  | .num spelling => .num (repr spelling)
  | .arr items => .arr (heldItems repr items)
  | .obj fields => .obj (dict (heldFields repr fields))
  | j => j

def heldItems (repr : List Char → List Char) : List Json → List Json
  | [] => []
  | x :: rest => held repr x :: heldItems repr rest

def heldFields (repr : List Char → List Char) : List (Text × Json) → List (Text × Json)
  | [] => []
  | (k, x) :: rest => (k, held repr x) :: heldFields repr rest

end

mutual

/-- No number is infinite or none at all (`allow_nan=False`). -/
def finite : Json → Bool
  | .num spelling => !(["inf".toList, "-inf".toList, "nan".toList].contains spelling)
  | .arr items => finiteItems items
  | .obj fields => finiteFields fields
  | _ => true

def finiteItems : List Json → Bool
  | [] => true
  | x :: rest => finite x && finiteItems rest

def finiteFields : List (Text × Json) → Bool
  | [] => true
  | (_, x) :: rest => finite x && finiteFields rest

end

/-! ## The round trip -/

theorem escape?_hex4 (n : Nat) (low : n < 32) (rest : Text) :
    escape? (.char 'u' :: hex4 n ++ rest) = some (.char (Char.ofNat n), rest) := by
  have digits : ∀ n < 32, codeUnit? (.char (hexDigit (n / 4096))) (.char (hexDigit (n / 256 % 16)))
      (.char (hexDigit (n / 16 % 16))) (.char (hexDigit (n % 16))) = some n := by decide
  have point : codePoint n = .char (Char.ofNat n) := by
    have valid : n.isValidChar := Or.inl (by omega)
    unfold codePoint
    rw [if_pos valid]
  have notHigh : ¬ 0xD800 ≤ n := by omega
  simp only [hex4, List.map_cons, List.map_nil, List.cons_append, List.nil_append, escape?,
    digits n low, notHigh, decide_false, Bool.false_and, Bool.false_eq_true, if_false, point]

/-- The three ways a character is written. -/
theorem pyEscape_cases (c : Char) :
    (∃ e, shortEscape c = some e ∧ pyEscape (.char c) = [.char '\\', .char e]) ∨
      (shortEscape c = none ∧ c.toNat < 32 ∧
        pyEscape (.char c) = .char '\\' :: .char 'u' :: hex4 c.toNat) ∨
      (shortEscape c = none ∧ ¬ c.toNat < 32 ∧ pyEscape (.char c) = [.char c]) := by
  unfold pyEscape
  dsimp only
  cases shortEscape c with
  | some e => exact Or.inl ⟨e, rfl, rfl⟩
  | none =>
    dsimp only
    by_cases low : c.toNat < 32
    · rw [if_pos low]
      exact Or.inr (Or.inl ⟨rfl, low, rfl⟩)
    · rw [if_neg low]
      exact Or.inr (Or.inr ⟨rfl, low, rfl⟩)

/-- A unit is read back as it was written. -/
theorem unit?_pyEscape (r : Rune) (rest : Text) : unit? (pyEscape r ++ rest) = some (r, rest) := by
  cases r with
  | stray n => rfl
  | char c =>
    rcases pyEscape_cases c with ⟨e, short, text⟩ | ⟨_, low, text⟩ | ⟨long, plain, text⟩
    · rw [text]
      simp only [shortEscape] at short
      repeat' split at short
      all_goals cases short
      all_goals rename_i same
      all_goals simp only [beq_iff_eq] at same
      · subst same; rfl
      · subst same; rfl
      all_goals rw [char_eq_of_toNat same]; rfl
    · have backslash : ∀ t, unit? (.char '\\' :: t) = escape? t := fun t => rfl
      rw [text, List.cons_append, backslash, escape?_hex4 _ low, Char.ofNat_toNat]
    · have backslash : c ≠ '\\' := by
        rintro rfl
        exact absurd long (by decide)
      rw [text]
      show (if c == '\\' then _ else if c.toNat < 0x20 then _ else _) = _
      rw [if_neg (by simpa using backslash), if_neg plain]
      rfl

/-- No escape starts with the closing quote. -/
theorem pyEscape_ne_quote (r : Rune) (rest : Text) :
    (pyEscape r ++ rest).head? ≠ some (.char '"') := by
  cases r with
  | stray n => exact fun h => Rune.noConfusion (Option.some.inj h)
  | char c =>
    rcases pyEscape_cases c with ⟨e, _, text⟩ | ⟨_, _, text⟩ | ⟨long, _, text⟩
    · rw [text]
      simp
    · rw [text]
      simp
    · rw [text]
      intro h
      have same : c = '"' := by simpa using h
      subst same
      exact absurd long (by decide)

theorem pyEscape_length (r : Rune) : 1 ≤ (pyEscape r).length := by
  cases r with
  | stray n => exact le_refl 1
  | char c =>
    rcases pyEscape_cases c with ⟨e, _, text⟩ | ⟨_, _, text⟩ | ⟨_, _, text⟩ <;> rw [text] <;> simp

/-- A string is read back up to its closing quote. -/
theorem string?_body (s : Text) (rest : Text) {n : Nat} (fuel : s.length < n) :
    string? n (s.flatMap pyEscape ++ .char '"' :: rest) = some (s, rest) := by
  induction s generalizing n with
  | nil =>
    cases n with
    | zero => exact absurd fuel (Nat.not_lt_zero _)
    | succ n => rfl
  | cons r s ih =>
    cases n with
    | zero => exact absurd fuel (Nat.not_lt_zero _)
    | succ n =>
      rw [List.flatMap_cons, List.append_assoc]
      unfold string?
      rw [if_neg (pyEscape_ne_quote r _), unit?_pyEscape]
      have later := ih (n := n) (by simpa using fuel)
      simp [later]

theorem body_length (s : Text) : s.length ≤ (s.flatMap pyEscape).length := by
  induction s with
  | nil => exact le_refl 0
  | cons r s ih =>
    rw [List.flatMap_cons, List.length_append, List.length_cons]
    have one := pyEscape_length r
    omega

/-- A quoted text is read back behind its opening quote. -/
theorem string?_quote (s rest : Text) :
    string? ((s.flatMap pyEscape ++ .char '"' :: rest).length + 1)
      (s.flatMap pyEscape ++ .char '"' :: rest) = some (s, rest) := by
  refine string?_body s rest ?_
  have longer := body_length s
  rw [List.length_append]
  omega

mutual

/-- A value of strings, arrays and objects whose keys differ. -/
def Textual : Json → Prop
  | .null | .bool _ | .str _ => True
  | .int _ | .num _ => False
  | .arr items => TextualItems items
  | .obj fields => (fields.map Prod.fst).Nodup ∧ TextualFields fields

def TextualItems : List Json → Prop
  | [] => True
  | x :: rest => Textual x ∧ TextualItems rest

def TextualFields : List (Text × Json) → Prop
  | [] => True
  | (_, x) :: rest => Textual x ∧ TextualFields rest

end

/-- A dictionary of pairs with different keys is the pairs. -/
theorem dict_of_nodup {pairs : List (Text × Json)} (h : (pairs.map Prod.fst).Nodup) :
    dict pairs = pairs := by
  have grow : ∀ (before after : List (Text × Json)),
      ((before ++ after).map Prod.fst).Nodup →
        after.foldl (fun fields f => assign fields f.1 f.2) before = before ++ after := by
    intro before after
    induction after generalizing before with
    | nil => intro _; simp
    | cons f rest ih =>
      intro nodup
      have fresh : before.any (·.1 == f.1) = false := by
        rw [List.any_eq_false]
        intro g member same
        rw [List.map_append, List.nodup_append] at nodup
        exact nodup.2.2 g.1 (List.mem_map.mpr ⟨g, member, rfl⟩) f.1
          (List.mem_map.mpr ⟨f, List.mem_cons_self, rfl⟩) (by simpa using same)
      rw [List.foldl_cons]
      have grown : assign before f.1 f.2 = before ++ [f] := by
        unfold assign
        rw [fresh]
        rfl
      rw [grown, ih (before ++ [f]) (by rw [List.append_assoc]; exact nodup), List.append_assoc]
      rfl
  exact grow [] pairs h

theorem skipSpace_of_ne {r : Rune} {t : Text} (h : r ≠ .char ' ' ∧ r ≠ .char '\t' ∧ r ≠ .char '\n' ∧
    r ≠ .char '\r') : skipSpace (r :: t) = r :: t := by
  simp [skipSpace, h]

/-- The units a textual value may start with. -/
def starts (r : Rune) : Bool :=
  r == .char 'n' || r == .char 't' || r == .char 'f' || r == .char '"' || r == .char '[' ||
    r == .char '\x7b'

theorem dumps_starts {j : Json} (h : Textual j) (rest : Text) :
    ∃ r t, dumps j ++ rest = r :: t ∧ starts r = true := by
  cases j with
  | null => exact ⟨_, _, rfl, rfl⟩
  | bool b => cases b <;> exact ⟨_, _, rfl, rfl⟩
  | int n => exact h.elim
  | num s => exact h.elim
  | str s => exact ⟨_, _, rfl, rfl⟩
  | arr items => exact ⟨_, _, rfl, rfl⟩
  | obj fields => exact ⟨_, _, rfl, rfl⟩

/-- No white space stands before a textual value. -/
theorem skipSpace_dumps {j : Json} (h : Textual j) (rest : Text) :
    skipSpace (dumps j ++ rest) = dumps j ++ rest := by
  obtain ⟨r, t, same, first⟩ := dumps_starts h rest
  rw [same]
  refine skipSpace_of_ne ⟨?_, ?_, ?_, ?_⟩ <;> rintro rfl <;> exact absurd first (by decide)

/-- Nor does the bracket that closes an empty array. -/
theorem dumps_ne_close {j : Json} (h : Textual j) (rest t : Text) :
    dumps j ++ rest ≠ .char ']' :: t := by
  obtain ⟨r, u, same, first⟩ := dumps_starts h rest
  rw [same]
  intro close
  rw [(List.cons.inj close).1] at first
  exact absurd first (by decide)

/-- A string in front. -/
theorem value?_str (n : Nat) (s rest : Text) :
    value? (n + 1) (pyQuote s ++ rest) = some (.str s, rest) := by
  have body := string?_quote s rest
  have text : pyQuote s ++ rest = .char '"' :: (s.flatMap pyEscape ++ .char '"' :: rest) := by
    simp [pyQuote]
  have arm : ∀ t : Text, value? (n + 1) (.char '"' :: t) =
      (string? (t.length + 1) t).bind fun p => some (.str p.1, p.2) := fun _ => rfl
  rw [text, arm, body]
  rfl

/-- A nonempty array in front. -/
theorem value?_arr {n : Nat} {body rest : Text} {xs : List Json} (space : skipSpace body = body)
    (some_ : ∀ t, body ≠ .char ']' :: t) (h : items? n body = some (xs, rest)) :
    value? (n + 1) (.char '[' :: body) = some (.arr xs, rest) := by
  unfold value?
  split
  · rename_i same
    exact absurd (List.cons.inj same).1 (by decide)
  · rename_i same
    obtain ⟨_, rfl⟩ := List.cons.inj same
    rw [space]
    split
    · rename_i t
      exact absurd rfl (some_ t)
    · rw [h]
      rfl
  · rename_i same
    exact absurd (List.cons.inj same).1 (by decide)
  · rename_i other _
    exact absurd rfl (other body)

/-- A nonempty object in front. -/
theorem value?_obj {n : Nat} {body rest : Text} {fs : List (Text × Json)}
    (space : skipSpace body = body) (some_ : ∀ t, body ≠ .char '\x7d' :: t)
    (h : members? n body = some (fs, rest)) :
    value? (n + 1) (.char '\x7b' :: body) = some (.obj (dict fs), rest) := by
  unfold value?
  split
  · rename_i same
    exact absurd (List.cons.inj same).1 (by decide)
  · rename_i same
    exact absurd (List.cons.inj same).1 (by decide)
  · rename_i same
    obtain ⟨_, rfl⟩ := List.cons.inj same
    rw [space]
    split
    · rename_i t
      exact absurd rfl (some_ t)
    · rw [h]
      rfl
  · rename_i other
    exact absurd rfl (other body)

theorem dumps_length {j : Json} (h : Textual j) : 1 ≤ (dumps j).length := by
  obtain ⟨r, t, same, _⟩ := dumps_starts h []
  rw [List.append_nil] at same
  rw [same]
  exact Nat.succ_pos _

/-- The items of an array after the first one. -/
theorem dumpsItems_cons (x : Json) (rest : List Json) : dumpsItems (x :: rest) =
    dumps x ++ (if rest = [] then [.char ']'] else .char ',' :: dumpsItems rest) := by
  cases rest with
  | nil => simp [dumpsItems]
  | cons y rest => simp [dumpsItems]

/-- The members of an object after the first one. -/
theorem dumpsFields_cons (k : Text) (x : Json) (rest : List (Text × Json)) (tail : Text) :
    dumpsFields ((k, x) :: rest) ++ tail = .char '"' :: (k.flatMap pyEscape ++ .char '"' ::
      .char ':' :: (dumps x ++ ((if rest = [] then [.char '\x7d']
        else .char ',' :: dumpsFields rest) ++ tail))) := by
  cases rest with
  | nil => simp [dumpsFields, pyQuote]
  | cons f rest => simp [dumpsFields, pyQuote]

mutual

/-- A value is read back as it was written, whatever follows. -/
theorem value?_dumps : ∀ (j : Json) (n : Nat) (rest : Text), Textual j → (dumps j).length < n →
    value? n (dumps j ++ rest) = some (j, rest)
  | _, 0, _, _, fuel => absurd fuel (Nat.not_lt_zero _)
  | .null, n + 1, rest, _, _ => rfl
  | .bool true, n + 1, rest, _, _ => rfl
  | .bool false, n + 1, rest, _, _ => rfl
  | .str s, n + 1, rest, _, _ => value?_str n s rest
  | .arr [], n + 1, rest, _, _ => rfl
  | .arr (x :: xs), n + 1, rest, h, fuel => by
      have short : (dumpsItems (x :: xs)).length < n := Nat.lt_of_succ_lt_succ fuel
      have items := items?_dumps x xs n rest h short
      show value? (n + 1) (.char '[' :: (dumpsItems (x :: xs) ++ rest)) = _
      rw [dumpsItems_cons, List.append_assoc] at items ⊢
      exact value?_arr (skipSpace_dumps h.1 _) (dumps_ne_close h.1 _) items
  | .obj [], n + 1, rest, _, _ => rfl
  | .obj ((k, x) :: fs), n + 1, rest, h, fuel => by
      have short : (dumpsFields ((k, x) :: fs)).length < n := Nat.lt_of_succ_lt_succ fuel
      have members := members?_dumps k x fs n rest h.2 short
      show value? (n + 1) (.char '\x7b' :: (dumpsFields ((k, x) :: fs) ++ rest)) = _
      rw [dumpsFields_cons] at members ⊢
      rw [value?_obj rfl (fun t same => by simp at same) members, dict_of_nodup h.1]

/-- So are the items of an array. -/
theorem items?_dumps : ∀ (x : Json) (xs : List Json) (n : Nat) (rest : Text),
    TextualItems (x :: xs) → (dumpsItems (x :: xs)).length < n →
      items? n (dumpsItems (x :: xs) ++ rest) = some (x :: xs, rest)
  | _, _, 0, _, _, fuel => absurd fuel (Nat.not_lt_zero _)
  | x, [], n + 1, rest, h, fuel => by
      have length : (dumpsItems [x]).length = (dumps x).length + 1 := by simp [dumpsItems]
      have first := value?_dumps x n (.char ']' :: rest) h.1 (by omega)
      have text : dumpsItems [x] ++ rest = dumps x ++ .char ']' :: rest := by simp [dumpsItems]
      rw [text]
      unfold items?
      rw [first]
      rfl
  | x, y :: xs, n + 1, rest, h, fuel => by
      have length : (dumpsItems (x :: y :: xs)).length =
          (dumps x).length + ((dumpsItems (y :: xs)).length + 1) := by simp [dumpsItems]
      have one := dumps_length h.1
      have first := value?_dumps x n (.char ',' :: (dumpsItems (y :: xs) ++ rest)) h.1 (by omega)
      have later := items?_dumps y xs n rest h.2 (by omega)
      have text : dumpsItems (x :: y :: xs) ++ rest =
          dumps x ++ .char ',' :: (dumpsItems (y :: xs) ++ rest) := by simp [dumpsItems]
      have space : skipSpace (dumpsItems (y :: xs) ++ rest) = dumpsItems (y :: xs) ++ rest := by
        rw [dumpsItems_cons, List.append_assoc]
        exact skipSpace_dumps h.2.1 _
      have comma : ∀ t : Text, skipSpace (.char ',' :: t) = .char ',' :: t := fun _ => rfl
      rw [text]
      unfold items?
      simp only [first, bind, Option.bind, comma, space, later]

/-- So are the members of an object. -/
theorem members?_dumps : ∀ (k : Text) (x : Json) (fs : List (Text × Json)) (n : Nat) (rest : Text),
    TextualFields ((k, x) :: fs) → (dumpsFields ((k, x) :: fs)).length < n →
      members? n (dumpsFields ((k, x) :: fs) ++ rest) = some ((k, x) :: fs, rest)
  | _, _, _, 0, _, _, fuel => absurd fuel (Nat.not_lt_zero _)
  | k, x, [], n + 1, rest, h, fuel => by
      have length : (dumpsFields [(k, x)]).length = (pyQuote k).length + ((dumps x).length + 2) := by
        simp [dumpsFields]
      have first := value?_dumps x n (.char '\x7d' :: rest) h.1 (by omega)
      have space := skipSpace_dumps h.1 (.char '\x7d' :: rest)
      have colon : ∀ t : Text, skipSpace (.char ':' :: t) = .char ':' :: t := fun _ => rfl
      have close : ∀ t : Text, skipSpace (.char '\x7d' :: t) = .char '\x7d' :: t := fun _ => rfl
      rw [dumpsFields_cons, if_pos rfl, List.singleton_append]
      unfold members?
      simp only [string?_quote, bind, Option.bind, colon, space, first, close]
  | k, x, (l, y) :: fs, n + 1, rest, h, fuel => by
      have length : (dumpsFields ((k, x) :: (l, y) :: fs)).length =
          (pyQuote k).length + ((dumps x).length + ((dumpsFields ((l, y) :: fs)).length + 2)) := by
        simp [dumpsFields]
        omega
      have first := value?_dumps x n (.char ',' :: (dumpsFields ((l, y) :: fs) ++ rest)) h.1
        (by omega)
      have later := members?_dumps l y fs n rest h.2 (by omega)
      have space := skipSpace_dumps h.1 (.char ',' :: (dumpsFields ((l, y) :: fs) ++ rest))
      have colon : ∀ t : Text, skipSpace (.char ':' :: t) = .char ':' :: t := fun _ => rfl
      have comma : ∀ t : Text, skipSpace (.char ',' :: t) = .char ',' :: t := fun _ => rfl
      have quoted : skipSpace (dumpsFields ((l, y) :: fs) ++ rest) =
          dumpsFields ((l, y) :: fs) ++ rest := by
        rw [dumpsFields_cons]
        rfl
      rw [dumpsFields_cons, if_neg (List.cons_ne_nil _ _), List.cons_append]
      unfold members?
      simp only [string?_quote, bind, Option.bind, colon, space, first, comma, quoted, later]

end

/-- A textual value is read back from the text `dumps` writes. -/
theorem loads_dumps {j : Json} (h : Textual j) : loads (dumps j) = some j := by
  have space := skipSpace_dumps h []
  have read := value?_dumps j ((dumps j).length + 1) [] h (Nat.lt_succ_self _)
  rw [List.append_nil] at space read
  unfold loads
  rw [space, read]
  rfl

end Json

end Lib
