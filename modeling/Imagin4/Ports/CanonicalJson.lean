import Mathlib.Data.List.Sort
import Mathlib.Data.String.Basic
import Mathlib.Tactic.IntervalCases
import Std.Data.String.ToInt
import Imagin4.Ports.Python

/-!
# Canonical JSON

`json.dumps(payload, sort_keys=True, separators=(",", ":"))`, the text
`canonical_payload_hash` hashes.  Two payloads have the same text exactly if
they are equal as JSON up to the order of keys: every piece of the text tells
what it is by its first character and where it ends by what may follow it.

How a float is printed is a parameter, `FloatText`, with what the text of a
float is relied on for.

## Main results

* `print_inj` — a text is the text of one value.
* `same_iff_sortKeys` — values equal up to the order of keys are those that are
  equal once their keys are sorted.
* `dumps_eq_iff` — the two together.
-/

namespace Imagin4.Ports

namespace Json

/-! ## Induction over a value -/

/-- Induction over a value: over the items of a list, and over the values of an
object. -/
theorem induction {motive : Json → Prop} (null : motive null)
    (bool : ∀ b, motive (bool b)) (int : ∀ n, motive (int n))
    (float : ∀ x, motive (float x)) (str : ∀ s, motive (str s))
    (arr : ∀ items, (∀ x ∈ items, motive x) → motive (arr items))
    (obj : ∀ members, (∀ m ∈ members, motive m.2) → motive (obj members)) :
    ∀ x, motive x :=
  @Json.rec motive (fun items => ∀ x ∈ items, motive x)
    (fun members => ∀ m ∈ members, motive m.2) (fun m => motive m.2)
    null bool int float str arr obj
    (fun x hx => by cases hx)
    (fun x rest hx hrest y hy => by
      rcases List.mem_cons.mp hy with rfl | hy
      · exact hx
      · exact hrest y hy)
    (fun m hm => by cases hm)
    (fun m rest hm hrest n hn => by
      rcases List.mem_cons.mp hn with rfl | hn
      · exact hm
      · exact hrest n hn)
    (fun _ _ h => h)

/-! ## Equality up to the order of keys -/

/-- Equal as JSON, where the order of an object's keys does not count. -/
inductive Same : Json → Json → Prop where
  | null : Same null null
  | bool (b : Bool) : Same (bool b) (bool b)
  | int (n : Int) : Same (int n) (int n)
  | float (x : PyFloat) : Same (float x) (float x)
  | str (s : String) : Same (str s) (str s)
  | arr {xs ys : List Json} : List.Forall₂ Same xs ys → Same (arr xs) (arr ys)
  | obj {ms ns : List (String × Json)} :
      (∀ key, Option.Rel Same (lookup key ms) (lookup key ns)) →
      Same (obj ms) (obj ns)

/-- No object of the value has a key twice, as in every Python dict. -/
inductive IsDict : Json → Prop where
  | null : IsDict null
  | bool (b : Bool) : IsDict (bool b)
  | int (n : Int) : IsDict (int n)
  | float (x : PyFloat) : IsDict (float x)
  | str (s : String) : IsDict (str s)
  | arr {items : List Json} : (∀ x ∈ items, IsDict x) → IsDict (arr items)
  | obj {members : List (String × Json)} :
      (members.map Prod.fst).Nodup → (∀ m ∈ members, IsDict m.2) →
      IsDict (obj members)

/-- The order `sort_keys` puts the members of an object in. -/
def KeyLE (m n : String × Json) : Prop := m.1.toList ≤ n.1.toList

instance : DecidableRel KeyLE := fun m n => by
  unfold KeyLE
  infer_instance

mutual

/-- The value with the keys of all its objects sorted. -/
def sortKeys : Json → Json
  | arr items => arr (sortItems items)
  | obj members => obj ((sortMembers members).insertionSort KeyLE)
  | x => x

/-- Sorts the items of a list. -/
def sortItems : List Json → List Json
  | [] => []
  | x :: rest => sortKeys x :: sortItems rest

/-- Sorts the values of an object. -/
def sortMembers : List (String × Json) → List (String × Json)
  | [] => []
  | (key, x) :: rest => (key, sortKeys x) :: sortMembers rest

end

theorem sortMembers_eq (members : List (String × Json)) :
    sortMembers members = members.map (fun m => (m.1, sortKeys m.2)) := by
  induction members with
  | nil => rfl
  | cons m rest ih => rw [sortMembers, ih, List.map_cons]

/-- Membership in an object without a key twice is its lookup. -/
theorem mem_iff_lookup {members : List (String × Json)}
    (h : (members.map Prod.fst).Nodup) {key : String} {x : Json} :
    (key, x) ∈ members ↔ lookup key members = some x := by
  unfold lookup
  rw [Option.map_eq_some_iff]
  constructor
  · intro hmem
    refine ⟨(key, x), ?_, rfl⟩
    cases hfind : members.find? (fun m => m.1 = key) with
    | none =>
        have hnone := List.find?_eq_none.mp hfind _ hmem
        simp at hnone
    | some m =>
        have hkey : m.1 = key := by simpa using List.find?_some hfind
        have hm := List.mem_of_find?_eq_some hfind
        rw [List.inj_on_of_nodup_map h hm hmem hkey]
  · rintro ⟨m, hm, rfl⟩
    have hkey : m.1 = key := by simpa using List.find?_some hm
    rw [← hkey]
    exact List.mem_of_find?_eq_some hm

theorem nodup_of_keys {members : List (String × Json)}
    (h : (members.map Prod.fst).Nodup) : members.Nodup :=
  List.Nodup.of_map Prod.fst h

theorem keys_sortMembers (members : List (String × Json)) :
    (sortMembers members).map Prod.fst = members.map Prod.fst := by
  rw [sortMembers_eq, List.map_map]
  rfl

theorem lookup_sortMembers (key : String) (members : List (String × Json)) :
    lookup key (sortMembers members) = (lookup key members).map sortKeys := by
  unfold lookup
  rw [sortMembers_eq, List.find?_map, Option.map_map, Option.map_map]
  rfl

instance : Std.Total KeyLE where
  total m n := le_total m.1.toList n.1.toList

instance : IsTrans (String × Json) KeyLE where
  trans _ _ _ h h' := le_trans (α := List Char) h h'

/-- Objects with the same members are the same once sorted. -/
theorem sort_eq_iff_perm {ms ns : List (String × Json)}
    (hms : (ms.map Prod.fst).Nodup) :
    ms.insertionSort KeyLE = ns.insertionSort KeyLE ↔ ms.Perm ns := by
  have hm := List.perm_insertionSort KeyLE ms
  have hn := List.perm_insertionSort KeyLE ns
  constructor
  · intro h
    exact hm.symm.trans (h ▸ hn)
  · intro h
    have hantisymm : ∀ a b, a ∈ ms.insertionSort KeyLE →
        b ∈ ns.insertionSort KeyLE → KeyLE a b → KeyLE b a → a = b := by
      intro a b ha hb hab hba
      have hkey : a.1 = b.1 := String.toList_inj.mp (le_antisymm hab hba)
      have hb' : b ∈ ms := h.symm.subset (hn.subset hb)
      exact List.inj_on_of_nodup_map hms (hm.subset ha) hb' hkey
    exact List.Perm.eq_of_pairwise hantisymm
      (List.pairwise_insertionSort KeyLE ms)
      (List.pairwise_insertionSort KeyLE ns) (hm.trans (h.trans hn.symm))

/-- Objects have the same members if they have the same lookups. -/
theorem perm_iff_lookup {ms ns : List (String × Json)}
    (hms : (ms.map Prod.fst).Nodup) (hns : (ns.map Prod.fst).Nodup) :
    ms.Perm ns ↔ ∀ key, lookup key ms = lookup key ns := by
  rw [List.perm_ext_iff_of_nodup (nodup_of_keys hms) (nodup_of_keys hns)]
  constructor
  · intro h key
    refine Option.ext (fun x => ?_)
    rw [← mem_iff_lookup hms, ← mem_iff_lookup hns]
    exact h (key, x)
  · rintro h ⟨key, x⟩
    rw [mem_iff_lookup hms, mem_iff_lookup hns, h]

theorem sortItems_of_same {xs ys : List Json} (h : List.Forall₂ Same xs ys)
    (hstep : ∀ x ∈ xs, ∀ y ∈ ys, Same x y → sortKeys x = sortKeys y) :
    sortItems xs = sortItems ys := by
  induction h with
  | nil => rfl
  | @cons x y xs ys hxy _ ih =>
      have hhead := hstep x (List.mem_cons_self ..) y (List.mem_cons_self ..) hxy
      have htail := ih (fun a ha b hb =>
        hstep a (List.mem_cons_of_mem _ ha) b (List.mem_cons_of_mem _ hb))
      rw [sortItems, sortItems, hhead, htail]

theorem same_of_sortItems {xs : List Json} : ∀ {ys : List Json},
    (∀ x ∈ xs, ∀ y ∈ ys, sortKeys x = sortKeys y → Same x y) →
    sortItems xs = sortItems ys → List.Forall₂ Same xs ys := by
  induction xs with
  | nil =>
      intro ys _ h
      cases ys with
      | nil => exact .nil
      | cons y ys => cases h
  | cons x xs ih =>
      intro ys hstep h
      cases ys with
      | nil => cases h
      | cons y ys =>
          rw [sortItems, sortItems] at h
          injection h with hhead htail
          have hxy := hstep x (List.mem_cons_self ..) y
            (List.mem_cons_self ..) hhead
          exact .cons hxy (ih (fun a ha b hb => hstep a
            (List.mem_cons_of_mem _ ha) b (List.mem_cons_of_mem _ hb)) htail)

theorem isDict_of_lookup {ms : List (String × Json)} (h : IsDict (obj ms))
    {key : String} {x : Json} (hx : lookup key ms = some x) : IsDict x := by
  cases h with
  | obj hkeys hvalues => exact hvalues _ ((mem_iff_lookup hkeys).mpr hx)

/-- Sorted objects are equal if their lookups are, once sorted. -/
theorem sortKeys_obj_iff {ms ns : List (String × Json)} (hms : IsDict (obj ms))
    (hns : IsDict (obj ns)) :
    sortKeys (obj ms) = sortKeys (obj ns) ↔
      ∀ key, (lookup key ms).map sortKeys = (lookup key ns).map sortKeys := by
  cases hms with
  | obj hmkeys _ =>
      cases hns with
      | obj hnkeys _ =>
          rw [← keys_sortMembers] at hmkeys hnkeys
          simp only [sortKeys, obj.injEq, sort_eq_iff_perm hmkeys,
            perm_iff_lookup hmkeys hnkeys, lookup_sortMembers]

theorem sortKeys_of_same {x : Json} : ∀ {y : Json}, IsDict x → IsDict y →
    Same x y → sortKeys x = sortKeys y := by
  induction x using induction with
  | null =>
      intro y _ _ h
      cases h
      rfl
  | bool b =>
      intro y _ _ h
      cases h
      rfl
  | int n =>
      intro y _ _ h
      cases h
      rfl
  | float v =>
      intro y _ _ h
      cases h
      rfl
  | str s =>
      intro y _ _ h
      cases h
      rfl
  | arr xs ih =>
      intro y hx hy h
      cases h with
      | arr hall =>
          cases hx with
          | arr hxs =>
              cases hy with
              | arr hys =>
                  exact congrArg arr (sortItems_of_same hall
                    (fun x hx y hy => ih x hx (hxs x hx) (hys y hy)))
  | obj ms ih =>
      intro y hx hy h
      cases h with
      | @obj _ ns hrel =>
          refine (sortKeys_obj_iff hx hy).mpr (fun key => ?_)
          have hkey := hrel key
          cases hm : lookup key ms with
          | none =>
              cases hn : lookup key ns with
              | none => rfl
              | some b =>
                  rw [hm, hn] at hkey
                  cases hkey
          | some a =>
              cases hn : lookup key ns with
              | none =>
                  rw [hm, hn] at hkey
                  cases hkey
              | some b =>
                  rw [hm, hn] at hkey
                  cases hkey with
                  | some hab =>
                      have hmem : (key, a) ∈ ms := by
                        cases hx with
                        | obj hkeys _ => exact (mem_iff_lookup hkeys).mpr hm
                      exact congrArg some (ih _ hmem (isDict_of_lookup hx hm)
                        (isDict_of_lookup hy hn) hab)

theorem same_of_sortKeys {x : Json} : ∀ {y : Json}, IsDict x → IsDict y →
    sortKeys x = sortKeys y → Same x y := by
  induction x using induction with
  | null =>
      intro y _ _ h
      cases y <;> simp [sortKeys] at h
      exact .null
  | bool b =>
      intro y _ _ h
      cases y <;> simp [sortKeys] at h
      exact h ▸ .bool b
  | int n =>
      intro y _ _ h
      cases y <;> simp [sortKeys] at h
      exact h ▸ .int n
  | float v =>
      intro y _ _ h
      cases y <;> simp [sortKeys] at h
      exact h ▸ .float v
  | str s =>
      intro y _ _ h
      cases y <;> simp [sortKeys] at h
      exact h ▸ .str s
  | arr xs ih =>
      intro y hx hy h
      cases y with
      | arr ys =>
          cases hx with
          | arr hxs =>
              cases hy with
              | arr hys =>
                  simp only [sortKeys, arr.injEq] at h
                  exact .arr (same_of_sortItems
                    (fun x hx y hy => ih x hx (hxs x hx) (hys y hy)) h)
      | null => simp [sortKeys] at h
      | bool b => simp [sortKeys] at h
      | int n => simp [sortKeys] at h
      | float v => simp [sortKeys] at h
      | str s => simp [sortKeys] at h
      | obj ns => simp [sortKeys] at h
  | obj ms ih =>
      intro y hx hy h
      cases y with
      | obj ns =>
          refine .obj (fun key => ?_)
          have hkey := (sortKeys_obj_iff hx hy).mp h key
          cases hm : lookup key ms with
          | none =>
              rw [hm] at hkey
              rw [Option.map_eq_none_iff.mp hkey.symm]
              exact .none
          | some a =>
              rw [hm] at hkey
              obtain ⟨b, hb, hab⟩ := Option.map_eq_some_iff.mp hkey.symm
              have hmem : (key, a) ∈ ms := by
                cases hx with
                | obj hkeys _ => exact (mem_iff_lookup hkeys).mpr hm
              rw [hb]
              exact .some (ih _ hmem (isDict_of_lookup hx hm)
                (isDict_of_lookup hy hb) hab.symm)
      | null => simp [sortKeys] at h
      | bool b => simp [sortKeys] at h
      | int n => simp [sortKeys] at h
      | float v => simp [sortKeys] at h
      | str s => simp [sortKeys] at h
      | arr ys => simp [sortKeys] at h

/-- Values are equal up to the order of keys exactly if they are equal once
their keys are sorted. -/
theorem same_iff_sortKeys {x y : Json} (hx : IsDict x) (hy : IsDict y) :
    Same x y ↔ sortKeys x = sortKeys y :=
  ⟨sortKeys_of_same hx hy, same_of_sortKeys hx hy⟩

/-! ## The text of a string -/

/-- Four lower-case hexadecimal digits, `{0:04x}`. -/
def hex4 (n : Nat) : List Char :=
  [Nat.digitChar (n / 4096 % 16), Nat.digitChar (n / 256 % 16),
    Nat.digitChar (n / 16 % 16), Nat.digitChar (n % 16)]

/-- One code point as `ensure_ascii` prints it; beyond the basic plane it is a
surrogate pair. -/
def escapeChar (c : Char) : List Char :=
  if c = '"' then ['\\', '"']
  else if c = '\\' then ['\\', '\\']
  else if c = '\n' then ['\\', 'n']
  else if c = '\r' then ['\\', 'r']
  else if c = '\t' then ['\\', 't']
  else if c.toNat = 12 then ['\\', 'f']
  else if c.toNat = 8 then ['\\', 'b']
  else if 32 ≤ c.toNat ∧ c.toNat ≤ 126 then [c]
  else if c.toNat < 0x10000 then '\\' :: 'u' :: hex4 c.toNat
  else
    let n := c.toNat - 0x10000
    '\\' :: 'u' :: hex4 (0xd800 + n / 1024) ++
      '\\' :: 'u' :: hex4 (0xdc00 + n % 1024)

/-- The escapes of two characters. -/
def shortEscapes : List (Char × Char) :=
  [('"', '"'), ('\\', '\\'), ('\n', 'n'), ('\r', 'r'), ('\t', 't'),
    (Char.ofNat 12, 'f'), (Char.ofNat 8, 'b')]

/-- The four ways in which a code point is printed. -/
inductive Escaped (c : Char) : List Char → Prop
  | short {d : Char} (h : (c, d) ∈ shortEscapes) : Escaped c ['\\', d]
  | plain (hquote : c ≠ '"') (hslash : c ≠ '\\') (h : 32 ≤ c.toNat) : Escaped c [c]
  | basic (h : c.toNat < 0x10000) : Escaped c ('\\' :: 'u' :: hex4 c.toNat)
  | pair {n : Nat} (h : c.toNat = 0x10000 + n) :
      Escaped c ('\\' :: 'u' :: hex4 (0xd800 + n / 1024) ++
        '\\' :: 'u' :: hex4 (0xdc00 + n % 1024))

theorem escaped_escapeChar (c : Char) : Escaped c (escapeChar c) := by
  have hshort : ∀ {d : Char} {n : Nat}, c.toNat = n → (Char.ofNat n, d) ∈ shortEscapes →
      Escaped c ['\\', d] := by
    rintro d _ rfl h
    rw [Char.ofNat_toNat] at h
    exact .short h
  unfold escapeChar
  by_cases hquote : c = '"'
  · subst hquote
    exact .short (by decide)
  by_cases hslash : c = '\\'
  · subst hslash
    exact .short (by decide)
  rw [if_neg hquote, if_neg hslash]
  by_cases hn : c = '\n'
  · rw [if_pos hn]
    exact .short (hn ▸ by decide)
  by_cases hr : c = '\r'
  · rw [if_neg hn, if_pos hr]
    exact .short (hr ▸ by decide)
  by_cases ht : c = '\t'
  · rw [if_neg hn, if_neg hr, if_pos ht]
    exact .short (ht ▸ by decide)
  rw [if_neg hn, if_neg hr, if_neg ht]
  by_cases hf : c.toNat = 12
  · rw [if_pos hf]
    exact hshort hf (by decide)
  by_cases hb : c.toNat = 8
  · rw [if_neg hf, if_pos hb]
    exact hshort hb (by decide)
  rw [if_neg hf, if_neg hb]
  by_cases hplain : 32 ≤ c.toNat ∧ c.toNat ≤ 126
  · rw [if_pos hplain]
    exact .plain hquote hslash hplain.1
  by_cases hlow : c.toNat < 0x10000
  · rw [if_neg hplain, if_pos hlow]
    exact .basic hlow
  · rw [if_neg hplain, if_neg hlow]
    exact .pair (by omega)

/-- The code points of a string, escaped. -/
def escape (cs : List Char) : List Char := cs.flatMap escapeChar

/-- A string in quotes. -/
def quote (s : String) : List Char := '"' :: escape s.toList ++ ['"']

/-- The value of a hexadecimal digit. -/
def hexValue (c : Char) : Nat :=
  if c.toNat < 58 then c.toNat - 48 else c.toNat - 87

/-- The value of four hexadecimal digits. -/
def hexValue4 (a b c d : Char) : Nat :=
  4096 * hexValue a + 256 * hexValue b + 16 * hexValue c + hexValue d

/-- The code point a text of escaped code points begins with, and what follows
it; a bare quote ends the string. -/
def readChar : List Char → Option (Char × List Char)
  | '\\' :: 'u' :: a :: b :: c :: d :: rest =>
      let high := hexValue4 a b c d
      if 0xd800 ≤ high ∧ high < 0xdc00 then
        match rest with
        | _ :: _ :: a' :: b' :: c' :: d' :: rest =>
            let low := hexValue4 a' b' c' d'
            some (Char.ofNat (0x10000 + 1024 * (high - 0xd800) + (low - 0xdc00)),
              rest)
        | _ => none
      else some (Char.ofNat high, rest)
  | '\\' :: 'n' :: rest => some ('\n', rest)
  | '\\' :: 'r' :: rest => some ('\r', rest)
  | '\\' :: 't' :: rest => some ('\t', rest)
  | '\\' :: 'f' :: rest => some (Char.ofNat 12, rest)
  | '\\' :: 'b' :: rest => some (Char.ofNat 8, rest)
  | '\\' :: c :: rest => some (c, rest)
  | '"' :: _ => none
  | c :: rest => some (c, rest)
  | [] => none

theorem hexValue_digitChar {n : Nat} (h : n < 16) :
    hexValue (Nat.digitChar n) = n := by
  interval_cases n <;> rfl

theorem hexValue4_hex4 {n : Nat} (h : n < 0x10000) :
    hexValue4 (Nat.digitChar (n / 4096 % 16)) (Nat.digitChar (n / 256 % 16))
      (Nat.digitChar (n / 16 % 16)) (Nat.digitChar (n % 16)) = n := by
  unfold hexValue4
  rw [hexValue_digitChar (by omega), hexValue_digitChar (by omega),
    hexValue_digitChar (by omega), hexValue_digitChar (by omega)]
  omega

theorem readChar_hex4 {n : Nat} (h : n < 0x10000)
    (hplain : ¬ (0xd800 ≤ n ∧ n < 0xdc00)) (rest : List Char) :
    readChar ('\\' :: 'u' :: hex4 n ++ rest) = some (Char.ofNat n, rest) := by
  show (if _ then _ else some (Char.ofNat _, rest)) = _
  rw [hexValue4_hex4 h, if_neg hplain]

theorem readChar_surrogates {n : Nat} (h : n < 0x100000) (rest : List Char) :
    readChar ('\\' :: 'u' :: hex4 (0xd800 + n / 1024) ++
        '\\' :: 'u' :: hex4 (0xdc00 + n % 1024) ++ rest) =
      some (Char.ofNat (0x10000 + n), rest) := by
  have hhigh : 0xd800 ≤ 0xd800 + n / 1024 ∧ 0xd800 + n / 1024 < 0xdc00 := by
    omega
  have hsum : 0x10000 + 1024 * (0xd800 + n / 1024 - 0xd800) +
      (0xdc00 + n % 1024 - 0xdc00) = 0x10000 + n := by omega
  show (if _ then some (Char.ofNat (_ + 1024 * (_ - _) + (_ - _)), rest)
    else _) = _
  rw [hexValue4_hex4 (by omega), hexValue4_hex4 (by omega), if_pos hhigh, hsum]

/-- A printable code point other than the two that are escaped stands for
itself. -/
theorem readChar_plain {c : Char} (hquote : c ≠ '"') (hslash : c ≠ '\\')
    (rest : List Char) : readChar (c :: rest) = some (c, rest) := by
  unfold readChar
  split
  all_goals first
    | exact absurd (List.head_eq_of_cons_eq ‹_›) hslash
    | exact absurd (List.head_eq_of_cons_eq ‹_›) hquote
    | cases ‹c :: rest = _› <;> rfl

theorem readChar_short {c d : Char} (h : (c, d) ∈ shortEscapes) (rest : List Char) :
    readChar ('\\' :: d :: rest) = some (c, rest) := by
  simp only [shortEscapes, List.mem_cons, Prod.mk.injEq, List.not_mem_nil, or_false] at h
  rcases h with ⟨rfl, rfl⟩ | ⟨rfl, rfl⟩ | ⟨rfl, rfl⟩ | ⟨rfl, rfl⟩ | ⟨rfl, rfl⟩ |
    ⟨rfl, rfl⟩ | ⟨rfl, rfl⟩
  all_goals rfl

/-- What is read back of an escaped code point. -/
theorem readChar_escapeChar (c : Char) (rest : List Char) :
    readChar (escapeChar c ++ rest) = some (c, rest) := by
  have hvalid : c.toNat < 0xd800 ∨ 0xdfff < c.toNat ∧ c.toNat < 0x110000 :=
    c.valid
  have hescaped := escaped_escapeChar c
  generalize escapeChar c = cs at hescaped ⊢
  cases hescaped with
  | short h => exact readChar_short h rest
  | plain hquote hslash h => exact readChar_plain hquote hslash rest
  | basic h => rw [readChar_hex4 h (by omega), Char.ofNat_toNat]
  | pair h => rw [readChar_surrogates (by omega), ← h, Char.ofNat_toNat]

theorem escape_cons (c : Char) (cs : List Char) :
    escape (c :: cs) = escapeChar c ++ escape cs := List.flatMap_cons

/-- Where an escaped text ends, and what it is the text of. -/
theorem escape_append_inj {cs : List Char} : ∀ {ds r r' : List Char},
    escape cs ++ '"' :: r = escape ds ++ '"' :: r' → cs = ds ∧ r = r' := by
  induction cs with
  | nil =>
      intro ds r r' h
      cases ds with
      | nil =>
          simp only [escape, List.flatMap_nil, List.nil_append,
            List.cons.injEq, true_and] at h
          exact ⟨rfl, h⟩
      | cons d ds =>
          have hread := congrArg readChar h
          rw [escape_cons, List.append_assoc, readChar_escapeChar] at hread
          cases hread
  | cons c cs ih =>
      intro ds r r' h
      have hread := congrArg readChar h
      rw [escape_cons, List.append_assoc, readChar_escapeChar] at hread
      cases ds with
      | nil => cases hread
      | cons d ds =>
          rw [escape_cons, List.append_assoc, readChar_escapeChar] at hread
          injection hread with hread
          injection hread with hchar hrest
          obtain ⟨hcs, hr⟩ := ih hrest
          exact ⟨by rw [hchar, hcs], hr⟩

theorem quote_append_inj {s t : String} {r r' : List Char}
    (h : quote s ++ r = quote t ++ r') : s = t ∧ r = r' := by
  simp only [quote, List.cons_append, List.append_assoc, List.cons.injEq,
    true_and, List.nil_append] at h
  obtain ⟨hchars, hr⟩ := escape_append_inj h
  exact ⟨String.toList_inj.mp hchars, hr⟩

end Json

/-! ## The text of a value -/

/-- What the text of a number or of a constant is made of. -/
def isAtomChar (c : Char) : Bool := c.isAlphanum || c = '+' || c = '-' || c = '.'

/-- `float.__repr__`: no two floats have the same text, and no text of a float
is the text of another kind of value. -/
structure FloatText where
  text : PyFloat → String
  text_inj : ∀ {x y}, text x = text y → x = y
  text_ne_empty : ∀ x, (text x).toList ≠ []
  text_isAtomChar : ∀ x, ∀ c ∈ (text x).toList, isAtomChar c = true
  text_ne_constant : ∀ x, text x ∉ ["null", "true", "false"]
  text_ne_int : ∀ x (n : Int), text x ≠ n.repr

namespace Json

variable (floats : FloatText)

mutual

/-- The text of a value, without spaces. -/
def print : Json → List Char
  | null => "null".toList
  | bool b => (if b then "true" else "false").toList
  | int n => n.repr.toList
  | float x => (floats.text x).toList
  | str s => quote s
  | arr items => '[' :: printItems true items
  | obj members => '{' :: printMembers true members

/-- The items of a list, up to its closing bracket. -/
def printItems : Bool → List Json → List Char
  | _, [] => [']']
  | first, x :: rest =>
      (if first then [] else [',']) ++ print x ++ printItems false rest

/-- The members of an object, up to its closing bracket. -/
def printMembers : Bool → List (String × Json) → List Char
  | _, [] => ['}']
  | first, (key, x) :: rest =>
      (if first then [] else [',']) ++ quote key ++ ':' :: print x ++
        printMembers false rest

end

/-- What may follow a value: nothing, or no part of a number or constant. -/
def Delim (r : List Char) : Prop := ∀ c ∈ r.head?, isAtomChar c = false

theorem delim_nil : Delim [] := fun _ h => by cases h

theorem delim_cons {c : Char} (h : isAtomChar c = false) (r : List Char) :
    Delim (c :: r) := by
  intro d hd
  injection hd with hd
  rw [← hd, h]

theorem delim_printItems (items : List Json) (r : List Char) :
    Delim (printItems floats false items ++ r) := by
  cases items with
  | nil => exact delim_cons rfl _
  | cons x rest => exact delim_cons rfl _

theorem delim_printMembers (members : List (String × Json)) (r : List Char) :
    Delim (printMembers floats false members ++ r) := by
  cases members with
  | nil => exact delim_cons rfl _
  | cons m rest => exact delim_cons rfl _

/-- The text of a number or of a constant. -/
def atomText : Json → Option String
  | null => some "null"
  | bool b => some (if b then "true" else "false")
  | int n => some n.repr
  | float x => some (floats.text x)
  | _ => none

variable {floats}

theorem print_of_atomText {x : Json} {s : String}
    (h : atomText floats x = some s) : print floats x = s.toList := by
  cases x <;> simp only [atomText, Option.some.injEq, reduceCtorEq] at h <;>
    rw [← h, print]

theorem isDigit_natRepr (n : Nat) : ∀ c ∈ n.repr.toList, c.isDigit = true := by
  rw [Nat.toList_repr]
  exact fun c hc => Nat.isDigit_of_mem_toDigits (by decide) (by decide) hc

/-- An integer is printed with digits and a minus sign. -/
theorem chars_intRepr (n : Int) :
    ∀ c ∈ n.repr.toList, c.isDigit = true ∨ c = '-' := by
  intro c hc
  rw [Int.repr_eq_if] at hc
  split at hc
  · exact .inl (isDigit_natRepr _ c hc)
  · rw [String.toList_append] at hc
    rcases List.mem_append.mp hc with hc | hc
    · exact .inr (by simpa using hc)
    · exact .inl (isDigit_natRepr _ c hc)

theorem isAtomChar_intRepr (n : Int) :
    ∀ c ∈ n.repr.toList, isAtomChar c = true := by
  intro c hc
  rcases chars_intRepr n c hc with hdigit | rfl
  · simp [isAtomChar, Char.isAlphanum, hdigit]
  · rfl

/-- `chars_intRepr` as a check that runs on a text. -/
theorem all_intRepr (n : Int) :
    n.repr.toList.all (fun c => c.isDigit || c == '-') = true := by
  refine List.all_eq_true.mpr (fun c hc => ?_)
  rcases chars_intRepr n c hc with hdigit | rfl
  · simp [hdigit]
  · rfl

theorem intRepr_ne_empty (n : Int) : n.repr.toList ≠ [] := by
  rw [Int.repr_eq_if]
  split <;> simp

/-- No integer is printed as a constant. -/
theorem intRepr_ne_constant (n : Int) :
    n.repr ∉ ["null", "true", "false"] := by
  have hall := all_intRepr n
  intro h
  simp only [List.mem_cons, List.not_mem_nil, or_false] at h
  rcases h with h | h | h <;> rw [h] at hall <;>
    exact absurd hall (by decide)

theorem atomText_chars {x : Json} {s : String}
    (h : atomText floats x = some s) :
    s.toList ≠ [] ∧ ∀ c ∈ s.toList, isAtomChar c = true := by
  cases x with
  | null =>
      injection h with h
      rw [← h]
      exact ⟨by decide, List.all_eq_true.mp (by decide)⟩
  | bool b =>
      injection h with h
      rw [← h]
      cases b <;> exact ⟨by decide, List.all_eq_true.mp (by decide)⟩
  | int n =>
      injection h with h
      rw [← h]
      exact ⟨intRepr_ne_empty n, isAtomChar_intRepr n⟩
  | float v =>
      injection h with h
      rw [← h]
      exact ⟨floats.text_ne_empty v, floats.text_isAtomChar v⟩
  | str s => cases h
  | arr items => cases h
  | obj members => cases h

/-- The text of a constant. -/
theorem atomText_constant {x : Json} {s : String}
    (h : atomText floats x = some s) (hs : s ∈ ["null", "true", "false"]) :
    x = null ∧ s = "null" ∨ x = bool true ∧ s = "true" ∨
      x = bool false ∧ s = "false" := by
  cases x with
  | null => exact .inl ⟨rfl, (Option.some.inj h).symm⟩
  | bool b =>
      have hb := (Option.some.inj h).symm
      cases b with
      | true => exact .inr (.inl ⟨rfl, hb⟩)
      | false => exact .inr (.inr ⟨rfl, hb⟩)
  | int n =>
      rw [← Option.some.inj h] at hs
      exact absurd hs (intRepr_ne_constant n)
  | float v =>
      rw [← Option.some.inj h] at hs
      exact absurd hs (floats.text_ne_constant v)
  | str s => cases h
  | arr items => cases h
  | obj members => cases h

/-- Numbers and constants have different texts. -/
theorem atomText_inj {x y : Json} {s : String}
    (hx : atomText floats x = some s) (hy : atomText floats y = some s) :
    x = y := by
  by_cases hs : s ∈ ["null", "true", "false"]
  · rcases atomText_constant hx hs with ⟨rfl, rfl⟩ | ⟨rfl, rfl⟩ | ⟨rfl, rfl⟩ <;>
      rcases atomText_constant hy hs with ⟨rfl, h⟩ | ⟨rfl, h⟩ | ⟨rfl, h⟩ <;>
      first | rfl | exact absurd h (by decide)
  · cases x with
    | null => exact absurd (Option.some.inj hx ▸ by decide) hs
    | bool b => exact absurd (Option.some.inj hx ▸ by cases b <;> decide) hs
    | int n =>
        cases y with
        | null => exact absurd (Option.some.inj hy ▸ by decide) hs
        | bool b => exact absurd (Option.some.inj hy ▸ by cases b <;> decide) hs
        | int m =>
            have h := (Option.some.inj hx).trans (Option.some.inj hy).symm
            rw [Int.repr_injective h]
        | float w =>
            have h := (Option.some.inj hy).trans (Option.some.inj hx).symm
            exact absurd h (floats.text_ne_int w n)
        | str s => cases hy
        | arr items => cases hy
        | obj members => cases hy
    | float v =>
        cases y with
        | null => exact absurd (Option.some.inj hy ▸ by decide) hs
        | bool b => exact absurd (Option.some.inj hy ▸ by cases b <;> decide) hs
        | int m =>
            have h := (Option.some.inj hx).trans (Option.some.inj hy).symm
            exact absurd h (floats.text_ne_int v m)
        | float w =>
            have h := (Option.some.inj hx).trans (Option.some.inj hy).symm
            rw [floats.text_inj h]
        | str s => cases hy
        | arr items => cases hy
        | obj members => cases hy
    | str s => cases hx
    | arr items => cases hx
    | obj members => cases hx

/-- Where a number or constant ends. -/
theorem atom_append_inj {s t r r' : List Char}
    (hs : ∀ c ∈ s, isAtomChar c = true) (ht : ∀ c ∈ t, isAtomChar c = true)
    (hr : Delim r) (hr' : Delim r') (h : s ++ r = t ++ r') : s = t ∧ r = r' := by
  have htake : ∀ {r : List Char}, Delim r → r.takeWhile isAtomChar = [] := by
    intro r hr
    cases r with
    | nil => rfl
    | cons c r => exact List.takeWhile_cons_of_neg (by simp [hr c rfl])
  have heq := congrArg (List.takeWhile isAtomChar) h
  rw [List.takeWhile_append_of_pos hs, List.takeWhile_append_of_pos ht,
    htake hr, htake hr', List.append_nil, List.append_nil] at heq
  rw [heq] at h
  exact ⟨heq, List.append_cancel_left h⟩

/-- What a string, a list and an object begin with. -/
def opener : Json → Option Char
  | str _ => some '"'
  | arr _ => some '['
  | obj _ => some '{'
  | _ => none

theorem begins_of_atomText {x : Json} {s : String}
    (h : atomText floats x = some s) :
    ∃ c rest, print floats x = c :: rest ∧ isAtomChar c = true := by
  obtain ⟨hne, hchars⟩ := atomText_chars h
  obtain ⟨c, rest, hs⟩ := List.exists_cons_of_ne_nil hne
  refine ⟨c, rest, ?_, hchars c (by rw [hs]; exact List.mem_cons_self ..)⟩
  rw [print_of_atomText h, hs]

/-- The first character of a text tells what it is the text of. -/
theorem begins_print (floats : FloatText) (x : Json) : ∃ c rest, print floats x = c :: rest ∧
    opener x = if isAtomChar c then none else some c := by
  have hatom : ∀ {x : Json} {s : String}, atomText floats x = some s →
      ∃ c rest, print floats x = c :: rest ∧
        none = if isAtomChar c then none else some c := by
    intro x s h
    obtain ⟨c, rest, htext, hc⟩ := begins_of_atomText h
    exact ⟨c, rest, htext, by rw [hc, if_pos rfl]⟩
  cases x with
  | null => exact hatom rfl
  | bool b => exact hatom rfl
  | int n => exact hatom rfl
  | float v => exact hatom rfl
  | str s =>
      rw [print]
      exact ⟨_, _, rfl, rfl⟩
  | arr items =>
      rw [print]
      exact ⟨_, _, rfl, rfl⟩
  | obj members =>
      rw [print]
      exact ⟨_, _, rfl, rfl⟩

/-- No value begins with a closing bracket. -/
theorem print_ne_close {x : Json} {c : Char} {r r' : List Char}
    (hc : c = ']' ∨ c = '}') : print floats x ++ r ≠ c :: r' := by
  intro h
  obtain ⟨d, rest, htext, hopener⟩ := begins_print floats x
  rw [htext, List.cons_append, List.cons.injEq] at h
  rw [h.1] at hopener
  rcases hc with rfl | rfl <;> cases x <;>
    simp [opener, show isAtomChar ']' = false from rfl,
      show isAtomChar '}' = false from rfl] at hopener

/-- Texts of values that begin alike are of values of the same kind. -/
theorem opener_eq {x y : Json} {r r' : List Char}
    (h : print floats x ++ r = print floats y ++ r') : opener x = opener y := by
  obtain ⟨c, xs, hx, hcx⟩ := begins_print floats x
  obtain ⟨d, ys, hy, hdy⟩ := begins_print floats y
  rw [hx, hy, List.cons_append, List.cons_append, List.cons.injEq] at h
  rw [hcx, hdy, h.1]

theorem atomText_of_opener (floats : FloatText) {x : Json} (h : opener x = none) :
    ∃ s, atomText floats x = some s := by
  cases x with
  | null => exact ⟨_, rfl⟩
  | bool b => exact ⟨_, rfl⟩
  | int n => exact ⟨_, rfl⟩
  | float v => exact ⟨_, rfl⟩
  | str s => cases h
  | arr items => cases h
  | obj members => cases h

/-- What a text tells of the value it begins with, whatever may follow. -/
def Readable (floats : FloatText) (x : Json) : Prop :=
  ∀ y r r', Delim r → Delim r' → print floats x ++ r = print floats y ++ r' →
    x = y ∧ r = r'

theorem readable_atom {x : Json} (hx : opener x = none) :
    Readable floats x := by
  intro y r r' hr hr' h
  have hy : opener y = none := (opener_eq h).symm.trans hx
  obtain ⟨s, hs⟩ := atomText_of_opener floats hx
  obtain ⟨t, ht⟩ := atomText_of_opener floats hy
  rw [print_of_atomText hs, print_of_atomText ht] at h
  obtain ⟨htext, hrest⟩ := atom_append_inj (atomText_chars hs).2
    (atomText_chars ht).2 hr hr' h
  rw [String.toList_inj.mp htext] at hs
  exact ⟨atomText_inj hs ht, hrest⟩

theorem readable_items {xs : List Json} (ih : ∀ x ∈ xs, Readable floats x) :
    ∀ {first : Bool} {ys : List Json} {r r' : List Char},
      printItems floats first xs ++ r = printItems floats first ys ++ r' →
      xs = ys ∧ r = r' := by
  induction xs with
  | nil =>
      intro first ys r r' h
      cases ys with
      | nil =>
          simp only [printItems, List.cons_append, List.nil_append,
            List.cons.injEq, true_and] at h
          exact ⟨rfl, h⟩
      | cons y ys =>
          rw [printItems, printItems] at h
          cases first with
          | true =>
              simp only [if_true, List.nil_append, List.append_assoc] at h
              exact absurd h.symm (print_ne_close (.inl rfl))
          | false => exact absurd (List.cons.inj h).1 (by decide)
  | cons x xs htail =>
      intro first ys r r' h
      cases ys with
      | nil =>
          rw [printItems, printItems] at h
          cases first with
          | true =>
              simp only [if_true, List.nil_append, List.append_assoc] at h
              exact absurd h (print_ne_close (.inl rfl))
          | false => exact absurd (List.cons.inj h).1 (by decide)
      | cons y ys =>
          rw [printItems, printItems] at h
          simp only [List.append_assoc, List.append_cancel_left_eq] at h
          obtain ⟨hxy, hrest⟩ := ih x (List.mem_cons_self ..) y _ _
            (delim_printItems floats xs r) (delim_printItems floats ys r') h
          obtain ⟨hxs, hr⟩ := htail
            (fun z hz => ih z (List.mem_cons_of_mem _ hz)) hrest
          exact ⟨by rw [hxy, hxs], hr⟩

theorem readable_members {ms : List (String × Json)}
    (ih : ∀ m ∈ ms, Readable floats m.2) :
    ∀ {first : Bool} {ns : List (String × Json)} {r r' : List Char},
      printMembers floats first ms ++ r = printMembers floats first ns ++ r' →
      ms = ns ∧ r = r' := by
  induction ms with
  | nil =>
      intro first ns r r' h
      cases ns with
      | nil =>
          simp only [printMembers, List.cons_append, List.nil_append,
            List.cons.injEq, true_and] at h
          exact ⟨rfl, h⟩
      | cons n ns =>
          rw [printMembers, printMembers] at h
          cases first <;> exact absurd (List.cons.inj h).1 (by decide)
  | cons m ms htail =>
      intro first ns r r' h
      cases ns with
      | nil =>
          rw [printMembers, printMembers] at h
          cases first <;> exact absurd (List.cons.inj h).1 (by decide)
      | cons n ns =>
          obtain ⟨key, x⟩ := m
          obtain ⟨key', y⟩ := n
          rw [printMembers, printMembers] at h
          simp only [List.append_assoc, List.append_cancel_left_eq,
            List.cons_append] at h
          obtain ⟨hkey, hvalue⟩ := quote_append_inj h
          obtain ⟨hxy, hrest⟩ := ih _ (List.mem_cons_self ..) y _ _
            (delim_printMembers floats ms r) (delim_printMembers floats ns r')
            (List.cons.inj hvalue).2
          obtain ⟨hms, hr⟩ := htail
            (fun z hz => ih z (List.mem_cons_of_mem _ hz)) hrest
          exact ⟨by rw [hkey, show x = y from hxy, hms], hr⟩

theorem readable (x : Json) : Readable floats x := by
  induction x using induction with
  | null => exact readable_atom rfl
  | bool b => exact readable_atom rfl
  | int n => exact readable_atom rfl
  | float v => exact readable_atom rfl
  | str s =>
      intro y r r' _ _ h
      have hopener := opener_eq h
      cases y <;> simp [opener] at hopener
      rw [print, print] at h
      obtain ⟨hst, hr⟩ := quote_append_inj h
      exact ⟨by rw [hst], hr⟩
  | arr xs ih =>
      intro y r r' _ _ h
      have hopener := opener_eq h
      cases y <;> simp [opener] at hopener
      rw [print, print, List.cons_append, List.cons_append] at h
      obtain ⟨hxs, hr⟩ := readable_items ih (List.cons.inj h).2
      exact ⟨by rw [hxs], hr⟩
  | obj ms ih =>
      intro y r r' _ _ h
      have hopener := opener_eq h
      cases y <;> simp [opener] at hopener
      rw [print, print, List.cons_append, List.cons_append] at h
      obtain ⟨hms, hr⟩ := readable_members ih (List.cons.inj h).2
      exact ⟨by rw [hms], hr⟩

/-- A text is the text of one value. -/
theorem print_inj {x y : Json} (h : print floats x = print floats y) : x = y :=
  (readable x y [] [] delim_nil delim_nil (by rw [h])).1

/-! ## The canonical text -/

/-- `json.dumps(x, sort_keys=True, separators=(",", ":"))`. -/
def dumps (floats : FloatText) (x : Json) : String :=
  String.ofList (print floats (sortKeys x))

/-- Values have the same canonical text exactly if they are equal up to the
order of keys. -/
theorem dumps_eq_iff {x y : Json} (hx : IsDict x) (hy : IsDict y) :
    dumps floats x = dumps floats y ↔ Same x y := by
  rw [same_iff_sortKeys hx hy]
  constructor
  · intro h
    exact print_inj (String.ofList_injective h)
  · intro h
    rw [dumps, h, dumps]

/-- Members in another order, printed in the same one. -/
example (floats : FloatText) :
    dumps floats (obj [("b", int (-3)), ("a", arr [null, str "é\n"])]) =
      "\x7b\"a\":[null,\"\\u00e9\\n\"],\"b\":-3\x7d" :=
  rfl

end Json

end Imagin4.Ports
