import Mathlib.Data.List.Infix

/-!
# The Python values the ports compute with

The backend is a Python program.  This module fixes how its values are
represented and what the few built-in operations do on them that the ports
rely on: parsed JSON, truthiness, iteration, subscripting, `str.strip`,
`str.partition` and `timedelta`.  An operation that raises returns the class
name of the exception, because that is all the program ever shows of one
(`type(exc).__name__`).

Times are aware datetimes counted in microseconds, the resolution of Python's
`datetime`.  Strings are Lean strings; the string functions go through their
list of code points.
-/

namespace Imagin4.Ports

/-- The class name of a raised exception. -/
abbrev PyError := String

/-- `uuid.UUID`. -/
abbrev Uuid := Nat

/-- `bytes`. -/
abbrev Bytes := List UInt8

/-! ## Time -/

/-- An aware `datetime`, in microseconds since the epoch. -/
abbrev DateTime := Int

/-- `timedelta(seconds=s)` in microseconds, rounded half to even. -/
def timedelta (seconds : Rat) : Int :=
  let exact := seconds * 1000000
  let below := exact.floor
  let rest := exact - below
  if rest < 1 / 2 then below
  else if 1 / 2 < rest then below + 1
  else if below % 2 = 0 then below
  else below + 1

/-- `timedelta.total_seconds()`. -/
def totalSeconds (delta : Int) : Rat := (delta : Rat) / 1000000

/-! ## JSON -/

/-- A Python float.  Zero has two signs, and Python's `json` also parses and
prints the three non-finite values. -/
inductive PyFloat where
  | finite (value : Rat)
  | negZero
  | inf
  | negInf
  | nan
deriving DecidableEq

/-- A value `json.loads` returns.  An object keeps its members in the order
they were inserted; `null` is Python's `None`. -/
inductive Json where
  | null
  | bool (b : Bool)
  | int (n : Int)
  | float (x : PyFloat)
  | str (s : String)
  | arr (items : List Json)
  | obj (members : List (String × Json))

namespace Json

/-- `bool(x)`. -/
def truthy : Json → Bool
  | null => false
  | bool b => b
  | int n => n != 0
  | float x => x != .finite 0 && x != .negZero
  | str s => s != ""
  | arr items => !items.isEmpty
  | obj members => !members.isEmpty

/-- `x or y`. -/
def orElse (x y : Json) : Json := if x.truthy then x else y

/-- The value under a key of an object's members. -/
def lookup (key : String) (members : List (String × Json)) : Option Json :=
  (members.find? (fun m => m.1 = key)).map Prod.snd

/-- `x.get(key, default)`: only a dict has `get`. -/
def getD (x : Json) (key : String) (default : Json) : Except PyError Json :=
  match x with
  | obj members => .ok ((lookup key members).getD default)
  | _ => .error "AttributeError"

/-- `x.get(key)`. -/
def get (x : Json) (key : String) : Except PyError Json := x.getD key null

/-- `x[key]` with a string key. -/
def item (key : String) : Json → Except PyError Json
  | obj members =>
      match lookup key members with
      | some v => .ok v
      | none => .error "KeyError"
  | _ => .error "TypeError"

/-- `x[1]`. -/
def second : Json → Except PyError Json
  | arr (_ :: v :: _) => .ok v
  | arr _ => .error "IndexError"
  | str s =>
      match s.toList with
      | _ :: c :: _ => .ok (.str (String.ofList [c]))
      | _ => .error "IndexError"
  | obj _ => .error "KeyError"
  | _ => .error "TypeError"

/-- `x.values()`. -/
def values : Json → Except PyError (List Json)
  | obj members => .ok (members.map Prod.snd)
  | _ => .error "AttributeError"

/-- What `for … in x` goes through. -/
def iter : Json → Except PyError (List Json)
  | arr items => .ok items
  | obj members => .ok (members.map (fun m => .str m.1))
  | str s => .ok (s.toList.map (fun c => .str (String.ofList [c])))
  | _ => .error "TypeError"

/-- Is the value this string? -/
def isStr (s : String) : Json → Bool
  | str t => t = s
  | _ => false

/-- `s in x`. -/
def contains (s : String) : Json → Except PyError Bool
  | obj members => .ok ((lookup s members).isSome)
  | arr items => .ok (items.any (isStr s))
  | str t => .ok (decide (s.toList <:+: t.toList))
  | _ => .error "TypeError"

/-- `x + y` where the sum is iterated next: two lists or two strings.  Every
other pair raises here or, having added to a number, on the iteration. -/
def concat : Json → Json → Except PyError Json
  | arr xs, arr ys => .ok (.arr (xs ++ ys))
  | str s, str t => .ok (.str (s ++ t))
  | _, _ => .error "TypeError"

/-- Can the value be put into a set? -/
def hashable : Json → Bool
  | arr _ => false
  | obj _ => false
  | _ => true

/-- `str(x)`; `repr` is Python's text of what is not already a string. -/
def text (repr : Json → String) : Json → String
  | str s => s
  | x => repr x

end Json

/-- What the program takes from Python's library and its Unicode tables: the
text of a value that is not a string, lower case, and the decimal digits beyond
ASCII. -/
structure Host where
  repr : Json → String
  lower : String → String
  decimal : Char → Option Nat

/-- `sys.int_info.default_max_str_digits`. -/
def maxStrDigits : Nat := 4300

namespace Json

mutual

/-- No integer of the value has more digits than `int.__repr__` prints. -/
def printable : Json → Bool
  | int n => n.natAbs.repr.length ≤ maxStrDigits
  | arr items => printableItems items
  | obj members => printableMembers members
  | _ => true

/-- The same for the items of a list. -/
def printableItems : List Json → Bool
  | [] => true
  | x :: rest => printable x && printableItems rest

/-- The same for the values of an object. -/
def printableMembers : List (String × Json) → Bool
  | [] => true
  | (_, x) :: rest => printable x && printableMembers rest

end

end Json

/-! ## Strings -/

/-- `str.isspace` for one code point. -/
def isSpace (c : Char) : Bool :=
  let n := c.toNat
  (9 ≤ n ∧ n ≤ 13) ∨ (28 ≤ n ∧ n ≤ 32) ∨ n = 0x85 ∨ n = 0xa0 ∨ n = 0x1680 ∨
    (0x2000 ≤ n ∧ n ≤ 0x200a) ∨ n = 0x2028 ∨ n = 0x2029 ∨ n = 0x202f ∨
    n = 0x205f ∨ n = 0x3000

/-- `s.strip()`. -/
def strip (s : String) : String :=
  String.ofList
    ((s.toList.dropWhile isSpace).reverse.dropWhile isSpace).reverse

/-- `s.partition(sep)` for a one-character separator: what stands before the
first separator and, if there is one, what stands after it. -/
def partition (sep : Char) (s : String) : String × Option String :=
  let head := s.toList.takeWhile (· ≠ sep)
  match s.toList.dropWhile (· ≠ sep) with
  | [] => (String.ofList head, none)
  | _ :: tail => (String.ofList head, some (String.ofList tail))

/-- `s.split(sep)[-1]`: what stands behind the last separator. -/
def lastPart (sep : Char) (s : String) : String :=
  String.ofList (s.toList.reverse.takeWhile (· ≠ sep)).reverse

/-- `x or default` for strings. -/
def orDefault (x default : String) : String := if x = "" then default else x

/-- What `partition` reads back from a prefix without the separator, the
separator, and anything. -/
theorem partition_append {sep : Char} {p r : String}
    (h : sep ∉ p.toList) :
    partition sep (p ++ String.ofList (sep :: r.toList)) = (p, some r) := by
  have hall : ∀ c ∈ p.toList, decide (c ≠ sep) = true := by
    intro c hc
    simpa using ne_of_mem_of_not_mem hc h
  have htake : (p.toList ++ sep :: r.toList).takeWhile (· ≠ sep) = p.toList := by
    rw [List.takeWhile_append_of_pos hall]
    simp
  have hdrop : (p.toList ++ sep :: r.toList).dropWhile (· ≠ sep) =
      sep :: r.toList := by
    rw [List.dropWhile_append_of_pos hall]
    simp
  simp only [partition, String.toList_append, String.toList_ofList, htake,
    hdrop, String.ofList_toList]

/-- The same for a tag in front of a colon. -/
theorem partition_tag {tag rest : String} (h : ':' ∉ tag.toList) :
    partition ':' (tag ++ ":" ++ rest) = (tag, some rest) := by
  have hsplit : tag ++ ":" ++ rest =
      tag ++ String.ofList (':' :: rest.toList) := by
    apply String.toList_inj.mp
    simp
  rw [hsplit, partition_append h]

/-- The tag and the rest can be told apart. -/
theorem append_colon_inj {s t s' t' : String} (hs : ':' ∉ s.toList)
    (ht : ':' ∉ t.toList) (h : s ++ ":" ++ s' = t ++ ":" ++ t') : s = t ∧ s' = t' := by
  have hpair := congrArg (partition ':') h
  rw [partition_tag hs, partition_tag ht] at hpair
  exact ⟨congrArg Prod.fst hpair, Option.some.inj (congrArg Prod.snd hpair)⟩

/-! ## Integers -/

/-- The value of a decimal digit. -/
def Host.digit (host : Host) (c : Char) : Option Nat :=
  if c.isDigit then some (c.toNat - 48) else host.decimal c

/-- The value of a digit string behind digits worth `value`; an underscore may
stand between two digits.  `awaits` says that a digit has to follow. -/
def intDigits (host : Host) : Bool → Nat → List Char → Option Nat
  | awaits, value, [] => if awaits then none else some value
  | awaits, value, c :: cs =>
      if c = '_' then
        if awaits then none else intDigits host true value cs
      else
        match host.digit c with
        | some d => intDigits host false (10 * value + d) cs
        | none => none

/-- What `int()` skips around a number: all spaces but U+001C to U+001F, which only
`str.isspace` takes for some. -/
def isIntSpace (c : Char) : Bool := isSpace c && !(28 ≤ c.toNat && c.toNat ≤ 31)

/-- What stands between the spaces around a number. -/
def intText (s : String) : List Char :=
  ((s.toList.dropWhile isIntSpace).reverse.dropWhile isIntSpace).reverse

/-- `int(s)`; `none` is its `ValueError`. -/
def pyInt (host : Host) (s : String) : Option Int :=
  match intText s with
  | '-' :: cs => (intDigits host true 0 cs).map (fun n => -(n : Int))
  | '+' :: cs => (intDigits host true 0 cs).map Int.ofNat
  | cs => (intDigits host true 0 cs).map Int.ofNat

/-- The position `xs[i]` stands for in a list of length `n`: a negative index
counts from the end, and `none` is an `IndexError`. -/
def pyIndex (n : Nat) (i : Int) : Option Nat :=
  let position := if 0 ≤ i then i else i + n
  if 0 ≤ position ∧ position < n then some position.toNat else none

theorem intDigits_of_isDigit (host : Host) {cs : List Char}
    (h : ∀ c ∈ cs, c.isDigit = true) (value : Nat) :
    intDigits host false value cs = some (Nat.ofDigitChars 10 cs value) := by
  induction cs generalizing value with
  | nil => simp [intDigits]
  | cons c cs ih =>
      have hc : c.isDigit = true := h c (List.mem_cons_self ..)
      have hne : c ≠ '_' := by
        rintro rfl
        exact absurd hc (by decide)
      have hrest := ih (fun d hd => h d (List.mem_cons_of_mem c hd))
      simp only [intDigits, if_neg hne, Host.digit, hc, if_true, hrest,
        Nat.ofDigitChars_cons]
      rfl

/-- Nothing is skipped of a number. -/
theorem intText_of_isDigit {s : String} (h : ∀ c ∈ s.toList, c.isDigit = true) :
    intText s = s.toList := by
  have hspace : ∀ c : Char, c.isDigit = true → isIntSpace c = false := by
    intro c hc
    simp only [Char.isDigit, Bool.and_eq_true, decide_eq_true_eq] at hc
    have hlow : 48 ≤ c.toNat := hc.1
    have hhigh : c.toNat ≤ 57 := hc.2
    have hword : isSpace c = false := by
      simp only [isSpace, decide_eq_false_iff_not]
      omega
    unfold isIntSpace
    rw [hword, Bool.false_and]
  have hdrop : ∀ cs : List Char, (∀ c ∈ cs, c.isDigit = true) →
      cs.dropWhile isIntSpace = cs := by
    intro cs hcs
    cases cs with
    | nil => rfl
    | cons c cs =>
        rw [List.dropWhile_cons, hspace c (hcs c (List.mem_cons_self ..))]
        rfl
  unfold intText
  rw [hdrop s.toList h, hdrop s.toList.reverse (by simpa using h),
    List.reverse_reverse]

/-- `int(str(n))`. -/
theorem pyInt_repr (host : Host) (n : Nat) : pyInt host n.repr = some n := by
  have hdigits : ∀ c ∈ n.repr.toList, c.isDigit = true := by
    rw [Nat.toList_repr]
    exact fun c hc => Nat.isDigit_of_mem_toDigits (by decide) (by decide) hc
  have hvalue : intDigits host true 0 n.repr.toList = some n := by
    have hne : n.repr.toList ≠ [] := by simp
    have hawaits : intDigits host true 0 n.repr.toList =
        intDigits host false 0 n.repr.toList := by
      cases hcs : n.repr.toList with
      | nil => exact absurd hcs hne
      | cons c cs =>
          have hc : c.isDigit = true := hdigits c (by simp [hcs])
          have hunderscore : c ≠ '_' := by
            rintro rfl
            exact absurd hc (by decide)
          simp only [intDigits, if_neg hunderscore]
    rw [hawaits, intDigits_of_isDigit host hdigits, Nat.toList_repr,
      Nat.ofDigitChars_ten_toDigits]
  unfold pyInt
  rw [intText_of_isDigit hdigits]
  split
  · rename_i cs hcs
    exact absurd (hdigits '-' (by simp [hcs])) (by decide)
  · rename_i cs hcs
    exact absurd (hdigits '+' (by simp [hcs])) (by decide)
  · rw [hvalue]
    rfl

/-- A number has no colon. -/
theorem not_colon_repr (i : Nat) : ':' ∉ i.repr.toList := by
  rw [Nat.toList_repr]
  intro hmem
  have hdigit := Nat.isDigit_of_mem_toDigits (by decide) (by decide) hmem
  exact absurd hdigit (by decide)

/-- An index that is in range. -/
theorem pyIndex_natCast {n i : Nat} (h : i < n) : pyIndex n i = some i := by
  have hnonneg : (0 : Int) ≤ i := by omega
  have hrange : (0 : Int) ≤ i ∧ (i : Int) < n := by omega
  simp [pyIndex, hnonneg, hrange]

end Imagin4.Ports
