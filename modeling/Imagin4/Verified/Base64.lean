import Mathlib.Tactic.IntervalCases

/-!
# Base64

Bytes as symbols of six bits each.  Three bytes make four symbols; a rest of one or
two bytes is padded to four symbols.

The reader is the lenient one: it goes through the text symbol by symbol, passes over
what is not a symbol, and ends at the padding.  It fails if the text ends in the
middle of a group.

## Main results

* `Alphabet.decode_encode` — what has been written is read back.
-/

namespace Imagin4.Verified

/-- The symbols of the 64 values.  The padding `=` is none of them. -/
structure Alphabet where
  symbol : Nat → Char
  value : Char → Option Nat
  value_symbol {n : Nat} : n < 64 → value (symbol n) = some n
  symbol_ne {n : Nat} : n < 64 → symbol n ≠ '='

namespace Alphabet

variable (alphabet : Alphabet)

/-- The text of some bytes. -/
def encode : List UInt8 → List Char
  | a :: b :: c :: rest =>
      alphabet.symbol (a.toNat / 4) ::
        alphabet.symbol (a.toNat % 4 * 16 + b.toNat / 16) ::
        alphabet.symbol (b.toNat % 16 * 4 + c.toNat / 64) ::
        alphabet.symbol (c.toNat % 64) :: encode rest
  | [a, b] =>
      [alphabet.symbol (a.toNat / 4),
        alphabet.symbol (a.toNat % 4 * 16 + b.toNat / 16),
        alphabet.symbol (b.toNat % 16 * 4), '=']
  | [a] =>
      [alphabet.symbol (a.toNat / 4), alphabet.symbol (a.toNat % 4 * 16), '=', '=']
  | [] => []

/-- Reads on, `position` symbols into a group: `left` are the bits that no byte has
been made of, and `pads` counts the padding in a row. -/
def read (position left pads : Nat) : List Char → Option (List UInt8)
  | [] => if position = 0 then some [] else none
  | c :: rest =>
      if c = '=' then
        if 2 ≤ position ∧ 4 ≤ position + (pads + 1) then some []
        else read position left (if 2 ≤ position then pads + 1 else pads) rest
      else
        match alphabet.value c with
        | none => read position left pads rest
        | some n =>
            if position = 0 then read 1 n 0 rest
            else if position = 1 then
              (read 2 (n % 16) 0 rest).map
                (fun bytes => UInt8.ofNat (left * 4 + n / 16) :: bytes)
            else if position = 2 then
              (read 3 (n % 4) 0 rest).map
                (fun bytes => UInt8.ofNat (left * 16 + n / 4) :: bytes)
            else
              (read 0 0 0 rest).map
                (fun bytes => UInt8.ofNat (left * 64 + n) :: bytes)

/-- The bytes of a text. -/
def decode (text : List Char) : Option (List UInt8) := alphabet.read 0 0 0 text

variable {alphabet}

theorem read_symbol {n : Nat} (hn : n < 64) (position left pads : Nat)
    (rest : List Char) :
    alphabet.read position left pads (alphabet.symbol n :: rest) =
      if position = 0 then alphabet.read 1 n 0 rest
      else if position = 1 then
        (alphabet.read 2 (n % 16) 0 rest).map
          (fun bytes => UInt8.ofNat (left * 4 + n / 16) :: bytes)
      else if position = 2 then
        (alphabet.read 3 (n % 4) 0 rest).map
          (fun bytes => UInt8.ofNat (left * 16 + n / 4) :: bytes)
      else
        (alphabet.read 0 0 0 rest).map
          (fun bytes => UInt8.ofNat (left * 64 + n) :: bytes) := by
  rw [read, if_neg (alphabet.symbol_ne hn), alphabet.value_symbol hn]

theorem ofNat_eq {n : Nat} {b : UInt8} (h : n = b.toNat) : UInt8.ofNat n = b := by
  rw [h, UInt8.ofNat_toNat]

/-- The first symbol of a group and the second one make a byte. -/
theorem read_first (a : UInt8) {n : Nat} (hn : n < 16) (rest : List Char) :
    alphabet.read 0 0 0 (alphabet.symbol (a.toNat / 4) ::
        alphabet.symbol (a.toNat % 4 * 16 + n) :: rest) =
      (alphabet.read 2 n 0 rest).map (fun bytes => a :: bytes) := by
  have ha : a.toNat < 256 := a.toNat_lt
  have hbyte : a.toNat / 4 * 4 + (a.toNat % 4 * 16 + n) / 16 = a.toNat := by omega
  have hleft : (a.toNat % 4 * 16 + n) % 16 = n := by omega
  rw [read_symbol (by omega), if_pos rfl, read_symbol (by omega),
    if_neg (by omega), if_pos rfl, ofNat_eq hbyte, hleft]

/-- The third symbol ends the second byte. -/
theorem read_second (b : UInt8) {n : Nat} (hn : n < 4) (rest : List Char) :
    alphabet.read 2 (b.toNat / 16) 0
        (alphabet.symbol (b.toNat % 16 * 4 + n) :: rest) =
      (alphabet.read 3 n 0 rest).map (fun bytes => b :: bytes) := by
  have hb : b.toNat < 256 := b.toNat_lt
  have hbyte : b.toNat / 16 * 16 + (b.toNat % 16 * 4 + n) / 4 = b.toNat := by omega
  have hleft : (b.toNat % 16 * 4 + n) % 4 = n := by omega
  rw [read_symbol (by omega), if_neg (by omega), if_neg (by omega), if_pos rfl,
    ofNat_eq hbyte, hleft]

/-- The fourth symbol ends the third byte. -/
theorem read_third (c : UInt8) (rest : List Char) :
    alphabet.read 3 (c.toNat / 64) 0 (alphabet.symbol (c.toNat % 64) :: rest) =
      (alphabet.read 0 0 0 rest).map (fun bytes => c :: bytes) := by
  have hc : c.toNat < 256 := c.toNat_lt
  have hbyte : c.toNat / 64 * 64 + c.toNat % 64 = c.toNat := by omega
  rw [read_symbol (by omega), if_neg (by omega), if_neg (by omega), if_neg (by omega),
    ofNat_eq hbyte]

/-- **Round trip.** -/
theorem decode_encode (bytes : List UInt8) :
    alphabet.decode (alphabet.encode bytes) = some bytes := by
  unfold decode
  fun_induction encode alphabet bytes with
  | case1 a b c rest ih =>
      have hb : b.toNat < 256 := b.toNat_lt
      have hc : c.toNat < 256 := c.toNat_lt
      rw [read_first a (by omega), read_second b (by omega), read_third c, ih]
      rfl
  | case2 a b =>
      have hb : b.toNat < 256 := b.toNat_lt
      have hsecond : alphabet.read 2 (b.toNat / 16) 0
          [alphabet.symbol (b.toNat % 16 * 4), '='] =
          (alphabet.read 3 0 0 ['=']).map (fun bytes => b :: bytes) :=
        read_second b (n := 0) (by omega) ['=']
      rw [read_first a (by omega), hsecond]
      rfl
  | case3 a =>
      have hfirst : alphabet.read 0 0 0 [alphabet.symbol (a.toNat / 4),
          alphabet.symbol (a.toNat % 4 * 16), '=', '='] =
          (alphabet.read 2 0 0 ['=', '=']).map (fun bytes => a :: bytes) :=
        read_first a (n := 0) (by omega) ['=', '=']
      rw [hfirst]
      rfl
  | case4 => rfl

/-- A text consists of symbols and padding. -/
theorem mem_encode {bytes : List UInt8} {c : Char}
    (hc : c ∈ alphabet.encode bytes) : c = '=' ∨ ∃ n < 64, c = alphabet.symbol n := by
  revert hc
  fun_induction encode alphabet bytes with
  | case1 a b d rest ih =>
      have ha : a.toNat < 256 := a.toNat_lt
      have hb : b.toNat < 256 := b.toNat_lt
      have hd : d.toNat < 256 := d.toNat_lt
      simp only [List.mem_cons]
      rintro (rfl | rfl | rfl | rfl | hrest)
      · exact Or.inr ⟨_, by omega, rfl⟩
      · exact Or.inr ⟨_, by omega, rfl⟩
      · exact Or.inr ⟨_, by omega, rfl⟩
      · exact Or.inr ⟨_, by omega, rfl⟩
      · exact ih hrest
  | case2 a b =>
      have ha : a.toNat < 256 := a.toNat_lt
      have hb : b.toNat < 256 := b.toNat_lt
      simp only [List.mem_cons, List.not_mem_nil, or_false]
      rintro (rfl | rfl | rfl | rfl)
      · exact Or.inr ⟨_, by omega, rfl⟩
      · exact Or.inr ⟨_, by omega, rfl⟩
      · exact Or.inr ⟨_, by omega, rfl⟩
      · exact Or.inl rfl
  | case3 a =>
      have ha : a.toNat < 256 := a.toNat_lt
      simp only [List.mem_cons, List.not_mem_nil, or_false]
      rintro (rfl | rfl | rfl | rfl)
      · exact Or.inr ⟨_, by omega, rfl⟩
      · exact Or.inr ⟨_, by omega, rfl⟩
      · exact Or.inl rfl
      · exact Or.inl rfl
  | case4 => simp

/-! ## The URL-safe alphabet -/

/-- `A`–`Z`, `a`–`z`, `0`–`9`, `-` and `_`. -/
def urlSymbol (n : Nat) : Char :=
  if n < 26 then Char.ofNat (65 + n)
  else if n < 52 then Char.ofNat (71 + n)
  else if n < 62 then Char.ofNat (n - 4)
  else if n = 62 then '-'
  else '_'

/-- The value of a symbol of this alphabet, or of the one with `+` and `/`. -/
def urlValue (c : Char) : Option Nat :=
  if 65 ≤ c.toNat ∧ c.toNat ≤ 90 then some (c.toNat - 65)
  else if 97 ≤ c.toNat ∧ c.toNat ≤ 122 then some (c.toNat - 71)
  else if 48 ≤ c.toNat ∧ c.toNat ≤ 57 then some (c.toNat + 4)
  else if c = '-' ∨ c = '+' then some 62
  else if c = '_' ∨ c = '/' then some 63
  else none

/-- The URL-safe alphabet, whose reader takes the other one as well. -/
def urlSafe : Alphabet where
  symbol := urlSymbol
  value := urlValue
  value_symbol {n} h := by interval_cases n <;> rfl
  symbol_ne {n} h := by interval_cases n <;> decide

/-- Its texts are ASCII. -/
theorem ascii_urlSafe {bytes : List UInt8} {c : Char}
    (hc : c ∈ urlSafe.encode bytes) : c.toNat < 128 := by
  rcases mem_encode hc with rfl | ⟨n, hn, rfl⟩
  · decide
  · show (urlSymbol n).toNat < 128
    interval_cases n <;> decide

end Alphabet

end Imagin4.Verified
