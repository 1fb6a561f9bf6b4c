import Imagin4.Ports.Dicts

/-!
# `json.loads`

The scanner of Python's `json`: strings with their escapes, numbers, constants,
lists and objects, with spaces between the tokens.  `none` stands for the
`JSONDecodeError`, for the `ValueError` of an integer with too many digits, and for the
`RecursionError` of a text whose lists and objects are nested too deep.  A Lean string
has no lone surrogate: one is read as U+FFFD, which is no space, no digit and no part
of any token either.

## Main results

* `scanString_escape` — what `json.dumps` makes of a string is read back.
* `scanNumber_repr` — the same for an integer.
* `scanMembers_quote` — one step over the members of an object.
* `loads_nested` — lists nested beyond the recursion limit are refused.
-/

namespace Imagin4.Ports

/-- The spaces between tokens. -/
def isJsonSpace (c : Char) : Bool := c = ' ' || c = '\t' || c = '\n' || c = '\r'

/-- What follows the spaces. -/
def skipSpace (cs : List Char) : List Char := cs.dropWhile isJsonSpace

/-! ## Strings -/

/-- The value of a hexadecimal digit. -/
def hexDigit? (c : Char) : Option Nat :=
  if 48 ≤ c.toNat ∧ c.toNat ≤ 57 then some (c.toNat - 48)
  else if 97 ≤ c.toNat ∧ c.toNat ≤ 102 then some (c.toNat - 87)
  else if 65 ≤ c.toNat ∧ c.toNat ≤ 70 then some (c.toNat - 55)
  else none

/-- Four hexadecimal digits. -/
def scanHex4 : List Char → Option (Nat × List Char)
  | a :: b :: c :: d :: rest => do
      let a ← hexDigit? a
      let b ← hexDigit? b
      let c ← hexDigit? c
      let d ← hexDigit? d
      some (4096 * a + 256 * b + 16 * c + d, rest)
  | _ => none

/-- What a lone surrogate is read as. -/
def replacement : Char := Char.ofNat 0xfffd

/-- The code point behind `\u`: one escape, or the two of a surrogate pair.  A high
surrogate with another escape behind it stands alone, and that one is read next. -/
def scanUnicode (cs : List Char) : Option (Char × List Char) := do
  let (high, rest) ← scanHex4 cs
  if 0xd800 ≤ high ∧ high < 0xdc00 then
    match rest with
    | '\\' :: 'u' :: rest' => do
        let (low, behind) ← scanHex4 rest'
        if 0xdc00 ≤ low ∧ low < 0xe000 then
          some (Char.ofNat (0x10000 + 1024 * (high - 0xd800) + (low - 0xdc00)), behind)
        else some (replacement, rest)
    | _ => some (replacement, rest)
  else if 0xdc00 ≤ high ∧ high < 0xe000 then some (replacement, rest)
  else some (Char.ofNat high, rest)

/-- `_decode_uXXXX` and the table of the other escapes. -/
def scanEscape (c : Char) (rest : List Char) : Option (Char × List Char) :=
  if c = 'u' then scanUnicode rest
  else if c = '"' ∨ c = '\\' ∨ c = '/' then some (c, rest)
  else if c = 'b' then some (Char.ofNat 8, rest)
  else if c = 'f' then some (Char.ofNat 12, rest)
  else if c = 'n' then some ('\n', rest)
  else if c = 'r' then some ('\r', rest)
  else if c = 't' then some ('\t', rest)
  else none

/-- One code point of a string; a control character has to be escaped. -/
def scanChar : List Char → Option (Char × List Char)
  | [] => none
  | c :: rest =>
      if c = '\\' then
        match rest with
        | [] => none
        | d :: rest => scanEscape d rest
      else if c.toNat < 32 then none
      else some (c, rest)

/-- `scanstring`, behind the opening quote. -/
def scanString : Nat → List Char → Option (List Char × List Char)
  | 0, _ => none
  | fuel + 1, cs =>
      if cs.head? = some '"' then some ([], cs.tail)
      else
        match scanChar cs with
        | none => none
        | some (c, rest) => (scanString fuel rest).map (fun r => (c :: r.1, r.2))

/-! ## Numbers -/

/-- The fraction or the exponent of a number: the mark, and the digits behind
it. -/
def scanDigits (cs : List Char) : List Char × List Char :=
  (cs.takeWhile Char.isDigit, cs.dropWhile Char.isDigit)

/-- `.` and digits. -/
def scanFraction : List Char → List Char × List Char
  | '.' :: d :: rest =>
      if d.isDigit then ('.' :: (scanDigits (d :: rest)).1, (scanDigits (d :: rest)).2)
      else ([], '.' :: d :: rest)
  | cs => ([], cs)

/-- `e`, a sign perhaps, and digits. -/
def scanExponent (cs : List Char) : List Char × List Char :=
  match cs with
  | e :: rest =>
      if e = 'e' ∨ e = 'E' then
        match rest with
        | d :: rest' =>
            if d.isDigit then (e :: (scanDigits rest).1, (scanDigits rest).2)
            else if (d = '+' ∨ d = '-') ∧ (scanDigits rest').1 ≠ [] then
              (e :: d :: (scanDigits rest').1, (scanDigits rest').2)
            else ([], cs)
        | [] => ([], cs)
      else ([], cs)
  | [] => ([], cs)

/-- A number without its sign. -/
def scanUnsigned (floatOfStr : String → Option PyFloat) (negative : Bool)
    (cs : List Char) : Option (Json × List Char) :=
  -- a number has no leading zero: what follows one is not part of it
  let integer := if cs.head? = some '0' then (['0'], cs.tail) else scanDigits cs
  let fraction := scanFraction integer.2
  let exponent := scanExponent fraction.2
  let sign := if negative then ['-'] else []
  if integer.1 = [] then none
  else if fraction.1 = [] ∧ exponent.1 = [] then
    let value : Int := Nat.ofDigitChars 10 integer.1 0
    if maxStrDigits < integer.1.length then none
    else some (.int (if negative then -value else value), exponent.2)
  else
    (floatOfStr (String.ofList (sign ++ integer.1 ++ fraction.1 ++ exponent.1))).map
      (fun x => (.float x, exponent.2))

/-- `NUMBER_RE`, and what is made of it. -/
def scanNumber (floatOfStr : String → Option PyFloat) (cs : List Char) :
    Option (Json × List Char) :=
  if cs.head? = some '-' then scanUnsigned floatOfStr true cs.tail
  else scanUnsigned floatOfStr false cs

/-! ## Values -/

/-- The constants. -/
def constants : List (List Char × Json) :=
  [("null".toList, .null), ("true".toList, .bool true),
    ("false".toList, .bool false), ("NaN".toList, .float .nan),
    ("Infinity".toList, .float .inf), ("-Infinity".toList, .float .negInf)]

/-- The constant a text begins with. -/
def scanConstant (cs : List Char) : Option (Json × List Char) :=
  (constants.find? (fun k => k.1.isPrefixOf cs)).map
    (fun k => (k.2, cs.drop k.1.length))

section Scanner

variable (floatOfStr : String → Option PyFloat)

mutual

/-- `scan_once`.  `depth` is how many lists and objects may still be opened inside
each other. -/
def scanOnce : Nat → Nat → List Char → Option (Json × List Char)
  | 0, _, _ => none
  | _ + 1, _, [] => none
  | fuel + 1, depth, c :: rest =>
      if c = '"' then
        (scanString (rest.length + 1) rest).map
          (fun r => (.str (String.ofList r.1), r.2))
      -- `Py_EnterRecursiveCall` stands in front of both brackets
      else if (c = '{' ∨ c = '[') ∧ depth = 0 then none
      else if c = '{' then
        if (skipSpace rest).head? = some '}' then
          some (.obj [], (skipSpace rest).tail)
        else scanMembers fuel (depth - 1) [] (skipSpace rest)
      else if c = '[' then
        if (skipSpace rest).head? = some ']' then
          some (.arr [], (skipSpace rest).tail)
        else scanItems fuel (depth - 1) [] (skipSpace rest)
      else scanConstant (c :: rest) <|> scanNumber floatOfStr (c :: rest)

/-- The members of an object, up to its closing bracket.  A key that occurs again
has the later value. -/
def scanMembers :
    Nat → Nat → List (String × Json) → List Char → Option (Json × List Char)
  | 0, _, _, _ => none
  | _ + 1, _, _, [] => none
  | fuel + 1, depth, members, c :: cs =>
      if c = '"' then
        match scanString (cs.length + 1) cs with
        | none => none
        | some (key, rest) =>
            if (skipSpace rest).head? = some ':' then
              match scanOnce fuel depth (skipSpace (skipSpace rest).tail) with
              | none => none
              | some (x, rest) =>
                  let members := Json.setMember (String.ofList key) x members
                  if (skipSpace rest).head? = some '}' then
                    some (.obj members, (skipSpace rest).tail)
                  else if (skipSpace rest).head? = some ',' then
                    scanMembers fuel depth members (skipSpace (skipSpace rest).tail)
                  else none
            else none
      else none

/-- The items of a list, up to its closing bracket. -/
def scanItems : Nat → Nat → List Json → List Char → Option (Json × List Char)
  | 0, _, _, _ => none
  | fuel + 1, depth, items, cs =>
      match scanOnce fuel depth cs with
      | none => none
      | some (x, rest) =>
          if (skipSpace rest).head? = some ']' then
            some (.arr (items ++ [x]), (skipSpace rest).tail)
          else if (skipSpace rest).head? = some ',' then
            scanItems fuel depth (items ++ [x]) (skipSpace (skipSpace rest).tail)
          else none

end

/-- `json.loads(s)` for a string, where `depth` lists and objects may be nested.  Every
call of the scanner reads on, so that the length of the text is fuel enough. -/
def loads (depth : Nat) (text : List Char) : Option Json :=
  match scanOnce floatOfStr (text.length + 1) depth (skipSpace text) with
  | none => none
  | some (x, rest) => if skipSpace rest = [] then some x else none

end Scanner

/-! ## What `json.dumps` has written -/

theorem hexDigit?_digitChar {n : Nat} (h : n < 16) :
    hexDigit? (Nat.digitChar n) = some n := by
  interval_cases n <;> rfl

theorem scanHex4_hex4 {n : Nat} (h : n < 0x10000) (rest : List Char) :
    scanHex4 (Json.hex4 n ++ rest) = some (n, rest) := by
  have hsum : 4096 * (n / 4096 % 16) + 256 * (n / 256 % 16) + 16 * (n / 16 % 16) +
      n % 16 = n := by omega
  unfold Json.hex4
  simp only [List.cons_append, List.nil_append, scanHex4,
    hexDigit?_digitChar (show n / 4096 % 16 < 16 by omega),
    hexDigit?_digitChar (show n / 256 % 16 < 16 by omega),
    hexDigit?_digitChar (show n / 16 % 16 < 16 by omega),
    hexDigit?_digitChar (show n % 16 < 16 by omega), Option.bind_eq_bind,
    Option.bind_some, hsum]

theorem scanUnicode_hex4 {n : Nat} (h : n < 0x10000)
    (hplain : n < 0xd800 ∨ 0xdfff < n) (rest : List Char) :
    scanUnicode (Json.hex4 n ++ rest) = some (Char.ofNat n, rest) := by
  unfold scanUnicode
  rw [scanHex4_hex4 h]
  show (if _ then _ else if _ then some (replacement, rest)
    else some (Char.ofNat n, rest)) = _
  rw [if_neg (by omega), if_neg (by omega)]

theorem scanUnicode_surrogates {n : Nat} (h : n < 0x100000) (rest : List Char) :
    scanUnicode (Json.hex4 (0xd800 + n / 1024) ++
        '\\' :: 'u' :: Json.hex4 (0xdc00 + n % 1024) ++ rest) =
      some (Char.ofNat (0x10000 + n), rest) := by
  have hsum : 0x10000 + 1024 * (0xd800 + n / 1024 - 0xd800) +
      (0xdc00 + n % 1024 - 0xdc00) = 0x10000 + n := by omega
  unfold scanUnicode
  rw [List.append_assoc, scanHex4_hex4 (by omega)]
  show (if _ then (scanHex4 (Json.hex4 (0xdc00 + n % 1024) ++ rest)).bind _
    else _) = _
  rw [if_pos (by omega), scanHex4_hex4 (by omega)]
  show (if _ then some (Char.ofNat _, rest) else some (replacement, _)) = _
  rw [if_pos (by omega), hsum]

theorem scanChar_short {c d : Char} (h : (c, d) ∈ Json.shortEscapes)
    (rest : List Char) : scanChar ('\\' :: d :: rest) = some (c, rest) := by
  simp only [Json.shortEscapes, List.mem_cons, Prod.mk.injEq, List.not_mem_nil,
    or_false] at h
  rcases h with ⟨rfl, rfl⟩ | ⟨rfl, rfl⟩ | ⟨rfl, rfl⟩ | ⟨rfl, rfl⟩ | ⟨rfl, rfl⟩ |
    ⟨rfl, rfl⟩ | ⟨rfl, rfl⟩
  all_goals rfl

/-- What is read back of an escaped code point, which does not begin with a quote. -/
theorem scanChar_escaped {c : Char} {cs : List Char} (hescaped : Json.Escaped c cs)
    (rest : List Char) :
    scanChar (cs ++ rest) = some (c, rest) ∧ (cs ++ rest).head? ≠ some '"' := by
  have hvalid : c.toNat < 0xd800 ∨ 0xdfff < c.toNat ∧ c.toNat < 0x110000 :=
    c.valid
  have hslash : ∀ cs : List Char, ('\\' :: cs).head? ≠ some '"' := by
    intro cs
    simp
  cases hescaped with
  | short h => exact ⟨scanChar_short h rest, hslash _⟩
  | plain hquote hne h =>
      refine ⟨?_, by simpa using hquote⟩
      show (if c = '\\' then _ else if c.toNat < 32 then none else some (c, rest)) = _
      rw [if_neg hne, if_neg (by omega)]
  | basic h =>
      refine ⟨?_, hslash _⟩
      show scanUnicode (Json.hex4 c.toNat ++ rest) = _
      rw [scanUnicode_hex4 h (by omega), Char.ofNat_toNat]
  | @pair n h =>
      have hread := scanUnicode_surrogates (n := n) (by omega) rest
      rw [← h, Char.ofNat_toNat] at hread
      exact ⟨hread, hslash _⟩

/-- No escaped code point is empty. -/
theorem length_escapeChar_pos (c : Char) : 1 ≤ (Json.escapeChar c).length := by
  have hescaped := Json.escaped_escapeChar c
  generalize Json.escapeChar c = cs at hescaped ⊢
  cases hescaped <;> simp

/-- What `json.dumps` makes of a string is read back. -/
theorem scanString_escape (cs : List Char) :
    ∀ (fuel : Nat) (rest : List Char), cs.length < fuel →
      scanString fuel (Json.escape cs ++ '"' :: rest) = some (cs, rest) := by
  induction cs with
  | nil =>
      intro fuel rest hfuel
      obtain ⟨n, rfl⟩ : ∃ n, fuel = n + 1 := ⟨fuel - 1, by simp at hfuel; omega⟩
      rfl
  | cons c cs ih =>
      intro fuel rest hfuel
      obtain ⟨n, rfl⟩ : ∃ n, fuel = n + 1 := ⟨fuel - 1, by simp at hfuel; omega⟩
      obtain ⟨hread, hhead⟩ := scanChar_escaped (Json.escaped_escapeChar c)
        (Json.escape cs ++ '"' :: rest)
      rw [Json.escape_cons, List.append_assoc, scanString, if_neg hhead, hread]
      dsimp only
      rw [ih n rest (by simpa using hfuel)]
      rfl

theorem length_escape (cs : List Char) : cs.length ≤ (Json.escape cs).length := by
  induction cs with
  | nil => exact Nat.le_refl 0
  | cons c cs ih =>
      have hpos := length_escapeChar_pos c
      rw [Json.escape_cons, List.length_append, List.length_cons]
      omega

/-! ## Integers that are read back -/

theorem takeWhile_append_delim {p : Char → Bool} {cs : List Char}
    (hcs : ∀ c ∈ cs, p c = true) {rest : List Char}
    (hrest : ∀ c ∈ rest.head?, p c = false) :
    (cs ++ rest).takeWhile p = cs ∧ (cs ++ rest).dropWhile p = rest := by
  have hstop : rest.takeWhile p = [] ∧ rest.dropWhile p = rest := by
    cases rest with
    | nil => exact ⟨rfl, rfl⟩
    | cons c rest =>
        have hc : p c = false := hrest c rfl
        simp [hc]
  rw [List.takeWhile_append_of_pos hcs, List.dropWhile_append_of_pos hcs, hstop.1,
    hstop.2, List.append_nil]
  exact ⟨rfl, rfl⟩

/-- A number is written without a leading zero. -/
theorem head_toDigits (n : Nat) (hn : 0 < n) :
    (Nat.toDigits 10 n).head? ≠ some '0' := by
  induction n using Nat.strongRecOn with
  | ind n ih =>
      by_cases hlt : n < 10
      · rw [Nat.toDigits_of_lt_base hlt]
        interval_cases n <;> decide
      · rw [Nat.toDigits_of_base_le (by decide) (by omega)]
        have hne : Nat.toDigits 10 (n / 10) ≠ [] := Nat.toDigits_ne_nil
        rw [List.head?_append_of_ne_nil _ hne]
        exact ih (n / 10) (by omega) (by omega)

theorem scanFraction_delim {rest : List Char} (hrest : Json.Delim rest) :
    scanFraction rest = ([], rest) := by
  unfold scanFraction
  split
  · have hdot := hrest '.' rfl
    cases hdot
  · rfl

theorem scanExponent_delim {rest : List Char} (hrest : Json.Delim rest) :
    scanExponent rest = ([], rest) := by
  unfold scanExponent
  cases rest with
  | nil => rfl
  | cons e rest =>
      have he : isAtomChar e = false := hrest e rfl
      have hne : ¬ (e = 'e' ∨ e = 'E') := by
        rintro (rfl | rfl) <;> cases he
      simp only [if_neg hne]

/-- The digits of a natural number. -/
theorem scanUnsigned_repr (floatOfStr : String → Option PyFloat) (negative : Bool)
    {n : Nat} (hn : n.repr.length ≤ maxStrDigits) {rest : List Char}
    (hrest : Json.Delim rest) :
    scanUnsigned floatOfStr negative (n.repr.toList ++ rest) =
      some (.int (if negative then -n else n), rest) := by
  have hdigits := Json.isDigit_natRepr n
  have hstop : ∀ c ∈ rest.head?, c.isDigit = false := by
    intro c hc
    have hatom := hrest c hc
    simp only [isAtomChar, Char.isAlphanum, Bool.or_eq_false_iff] at hatom
    exact hatom.1.1.1.2
  have hinteger : (if (n.repr.toList ++ rest).head? = some '0' then
      (['0'], (n.repr.toList ++ rest).tail) else scanDigits (n.repr.toList ++ rest)) =
      (n.repr.toList, rest) := by
    rcases Nat.eq_zero_or_pos n with rfl | hpos
    · rfl
    · have hhead : (n.repr.toList ++ rest).head? ≠ some '0' := by
        rw [Nat.toList_repr, List.head?_append_of_ne_nil _ Nat.toDigits_ne_nil]
        exact head_toDigits n hpos
      obtain ⟨htake, hdrop⟩ := takeWhile_append_delim hdigits hstop
      rw [if_neg hhead, scanDigits, htake, hdrop]
  have hne : n.repr.toList ≠ [] := by
    rw [Nat.toList_repr]
    exact Nat.toDigits_ne_nil
  have hfits : ¬ maxStrDigits < n.repr.toList.length := by
    rw [String.length_toList]
    omega
  unfold scanUnsigned
  rw [hinteger]
  dsimp only
  rw [scanFraction_delim hrest, scanExponent_delim hrest, if_neg hne,
    if_pos ⟨rfl, rfl⟩, if_neg hfits, Nat.toList_repr,
    Nat.ofDigitChars_ten_toDigits]

/-- An integer is read back. -/
theorem scanNumber_repr (floatOfStr : String → Option PyFloat) {n : Int}
    (hn : n.natAbs.repr.length ≤ maxStrDigits) {rest : List Char}
    (hrest : Json.Delim rest) :
    scanNumber floatOfStr (n.repr.toList ++ rest) = some (.int n, rest) := by
  unfold scanNumber
  cases n with
  | ofNat n =>
      have hhead : ((Int.ofNat n).repr.toList ++ rest).head? ≠ some '-' := by
        show (n.repr.toList ++ rest).head? ≠ some '-'
        rw [Nat.toList_repr, List.head?_append_of_ne_nil _ Nat.toDigits_ne_nil]
        intro hhead
        have hmem : '-' ∈ Nat.toDigits 10 n := List.mem_of_mem_head? hhead
        have hdigit := Nat.isDigit_of_mem_toDigits (by decide) (by decide) hmem
        cases hdigit
      rw [if_neg hhead]
      exact scanUnsigned_repr floatOfStr false hn hrest
  | negSucc n =>
      have htext : (Int.negSucc n).repr.toList = '-' :: (n + 1).repr.toList := by
        rw [Int.repr_eq_if, if_neg (by simp), String.toList_append]
        rfl
      rw [htext]
      exact scanUnsigned_repr floatOfStr true hn hrest

/-! ## Values that are read back -/

theorem skipSpace_cons {c : Char} (h : isJsonSpace c = false) (cs : List Char) :
    skipSpace (c :: cs) = c :: cs := by
  unfold skipSpace
  rw [List.dropWhile_cons, h]
  rfl

/-- An integer begins with a digit or a minus sign. -/
theorem exists_cons_repr (n : Int) :
    ∃ c cs, n.repr.toList = c :: cs ∧ (c.isDigit = true ∨ c = '-') := by
  cases htext : n.repr.toList with
  | nil => exact absurd htext (Json.intRepr_ne_empty n)
  | cons c cs =>
      refine ⟨c, cs, rfl, Json.chars_intRepr n c ?_⟩
      rw [htext]
      exact List.mem_cons_self

theorem skipSpace_repr (n : Int) (rest : List Char) :
    skipSpace (n.repr.toList ++ rest) = n.repr.toList ++ rest := by
  obtain ⟨c, cs, htext, hc⟩ := exists_cons_repr n
  rw [htext]
  refine skipSpace_cons ?_ _
  rcases hc with hdigit | rfl
  · cases hspace : isJsonSpace c with
    | false => rfl
    | true =>
        simp only [isJsonSpace, Bool.or_eq_true, decide_eq_true_eq] at hspace
        rcases hspace with ((rfl | rfl) | rfl) | rfl <;> cases hdigit
  · rfl

/-- No constant begins as an integer does. -/
theorem scanConstant_repr {n : Int} (hn : n.natAbs.repr.length ≤ maxStrDigits)
    (rest : List Char) :
    scanConstant (n.repr.toList ++ rest) = none := by
  obtain ⟨c, cs, htext, hc⟩ := exists_cons_repr n
  have hsecond : c = '-' → cs.head? ≠ some 'I' := by
    rintro rfl hhead
    obtain ⟨tail, rfl⟩ : ∃ tail, cs = 'I' :: tail := by
      cases cs with
      | nil => cases hhead
      | cons d tail => exact ⟨tail, by rw [Option.some.inj hhead]⟩
    have hI := Json.chars_intRepr n 'I' (by rw [htext]; simp)
    rcases hI with hdigit | hminus
    · cases hdigit
    · exact absurd hminus (by decide)
  have hdigit : ∀ d : Char, d.isDigit = false → d ≠ '-' → d ≠ c := by
    rintro d hd hminus rfl
    rcases hc with hdigit | hd'
    · rw [hd] at hdigit
      cases hdigit
    · exact hminus hd'
  have hnull := hdigit 'n' rfl (by decide)
  have ht := hdigit 't' rfl (by decide)
  have hf := hdigit 'f' rfl (by decide)
  have hN := hdigit 'N' rfl (by decide)
  have hI := hdigit 'I' rfl (by decide)
  unfold scanConstant constants
  rw [htext, Option.map_eq_none_iff, List.find?_eq_none]
  intro k hk
  simp only [List.mem_cons, List.not_mem_nil, or_false] at hk
  rcases hk with rfl | rfl | rfl | rfl | rfl | rfl
  · simp [List.isPrefixOf, hnull]
  · simp [List.isPrefixOf, ht]
  · simp [List.isPrefixOf, hf]
  · simp [List.isPrefixOf, hN]
  · simp [List.isPrefixOf, hI]
  · by_cases hminus : c = '-'
    · have hnot := hsecond hminus
      cases cs with
      | nil =>
          -- a sign alone is no number, and would be read back as one
          have hread := scanNumber_repr (fun _ => none) hn Json.delim_nil
          rw [htext, hminus] at hread
          cases hread
      | cons d tail =>
          have hd : 'I' ≠ d := by
            rintro rfl
            exact hnot rfl
          simp [List.isPrefixOf, hd]
    · simp [List.isPrefixOf, Ne.symm hminus]

section Scanner

variable (floatOfStr : String → Option PyFloat)

theorem scanOnce_int (fuel depth : Nat) {n : Int}
    (hn : n.natAbs.repr.length ≤ maxStrDigits) {rest : List Char}
    (hrest : Json.Delim rest) :
    scanOnce floatOfStr (fuel + 1) depth (n.repr.toList ++ rest) =
      some (.int n, rest) := by
  have hconstant := scanConstant_repr hn rest
  have hnumber := scanNumber_repr floatOfStr hn hrest
  obtain ⟨c, cs, htext, hc⟩ := exists_cons_repr n
  have hne : ∀ d : Char, d.isDigit = false → d ≠ '-' → c ≠ d := by
    rintro d hd hminus rfl
    rcases hc with hdigit | hd'
    · rw [hd] at hdigit
      cases hdigit
    · exact hminus hd'
  have hopen : ¬ ((c = '{' ∨ c = '[') ∧ depth = 0) := by
    rintro ⟨hbrace | hbracket, -⟩
    · exact hne _ rfl (by decide) hbrace
    · exact hne _ rfl (by decide) hbracket
  rw [htext] at hconstant hnumber ⊢
  rw [List.cons_append] at hconstant hnumber ⊢
  rw [scanOnce, if_neg (hne '"' rfl (by decide)), if_neg hopen,
    if_neg (hne _ rfl (by decide)), if_neg (hne '[' rfl (by decide)), hconstant,
    hnumber]
  rfl

/-- One list more than may be nested is refused, whatever stands in the innermost. -/
theorem scanOnce_nested (depth : Nat) (rest : List Char) : ∀ fuel : Nat,
    scanOnce floatOfStr fuel depth (List.replicate (depth + 1) '[' ++ rest) = none := by
  induction depth with
  | zero =>
      intro fuel
      cases fuel with
      | zero => rfl
      | succ fuel =>
          show scanOnce floatOfStr (fuel + 1) 0 ('[' :: rest) = none
          rw [scanOnce, if_neg (by decide), if_pos ⟨.inr rfl, rfl⟩]
  | succ depth ih =>
      intro fuel
      -- the text behind the first bracket, which begins with the next one
      have hskip : skipSpace (List.replicate (depth + 1) '[' ++ rest) =
          List.replicate (depth + 1) '[' ++ rest := skipSpace_cons rfl _
      cases fuel with
      | zero => rfl
      | succ fuel =>
          have hitems : scanItems floatOfStr fuel depth []
              (List.replicate (depth + 1) '[' ++ rest) = none := by
            cases fuel with
            | zero => rfl
            | succ fuel => rw [scanItems, ih fuel]
          show scanOnce floatOfStr (fuel + 1) (depth + 1)
            ('[' :: (List.replicate (depth + 1) '[' ++ rest)) = none
          rw [scanOnce, if_neg (by decide), if_neg (fun h => absurd h.2 (by omega)),
            if_neg (by decide), if_pos rfl, hskip, if_neg (by simp [List.replicate_succ]),
            Nat.add_sub_cancel, hitems]

/-- So `json.loads` refuses it. -/
theorem loads_nested (depth : Nat) (rest : List Char) :
    loads floatOfStr depth (List.replicate (depth + 1) '[' ++ rest) = none := by
  have hskip : skipSpace (List.replicate (depth + 1) '[' ++ rest) =
      List.replicate (depth + 1) '[' ++ rest := skipSpace_cons rfl _
  unfold loads
  rw [hskip, scanOnce_nested]

theorem scanString_quote (s : String) (rest : List Char) :
    scanString ((Json.escape s.toList ++ '"' :: rest).length + 1)
        (Json.escape s.toList ++ '"' :: rest) = some (s.toList, rest) := by
  have hlength := length_escape s.toList
  refine scanString_escape s.toList _ rest ?_
  rw [List.length_append]
  omega

theorem quote_append (s : String) (rest : List Char) :
    Json.quote s ++ rest = '"' :: (Json.escape s.toList ++ '"' :: rest) := by
  simp [Json.quote]

theorem scanOnce_str (fuel depth : Nat) (s : String) (rest : List Char) :
    scanOnce floatOfStr (fuel + 1) depth (Json.quote s ++ rest) =
      some (.str s, rest) := by
  rw [quote_append, scanOnce, if_pos rfl, scanString_quote, Option.map_some,
    String.ofList_toList]

/-- One member of an object: the scanner goes on behind its comma, or is done with
the closing bracket. -/
theorem scanMembers_quote {fuel depth : Nat} (members : List (String × Json))
    (key : String) {text after : List Char} {x : Json} (hskip : skipSpace text = text)
    (hread : scanOnce floatOfStr fuel depth text = some (x, after)) :
    scanMembers floatOfStr (fuel + 1) depth members (Json.quote key ++ ':' :: text) =
      if (skipSpace after).head? = some '}' then
        some (.obj (Json.setMember key x members), (skipSpace after).tail)
      else if (skipSpace after).head? = some ',' then
        scanMembers floatOfStr fuel depth (Json.setMember key x members)
          (skipSpace (skipSpace after).tail)
      else none := by
  have hcolon : skipSpace (':' :: text) = ':' :: text := skipSpace_cons rfl text
  rw [quote_append, scanMembers, if_pos rfl, scanString_quote]
  dsimp only
  rw [hcolon, List.head?_cons, if_pos rfl, List.tail_cons, hskip, hread,
    String.ofList_toList]

end Scanner

end Imagin4.Ports
