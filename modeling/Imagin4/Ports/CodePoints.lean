import Imagin4.Ports.CanonicalHashes

/-!
# Strings with surrogates

A Python string is a sequence of code points, and surrogates may be among them: the
bytes `ED A0 BD ED B8 80` of a request body, which `json.loads` decodes with
`surrogatepass`, are the two code points `U+D83D` and `U+DE00`.  `json.dumps` prints
these two as it prints the one code point `U+1F600`.

## Main results

* `dumps_ofJson` — without surrogates the canonical text is that of `Json.dumps`.
* `escape_surrogates` — a pair of surrogates is printed as the code point it stands
  for.
* `not_canonical_hashes` — so two objects that differ can have one hash.
-/

namespace Imagin4.Ports

/-- A code point, a surrogate perhaps. -/
abbrev CodePoint := Fin 0x110000

theorem toNat_lt_codePoints (c : Char) : c.toNat < 0x110000 := by
  have hvalid : c.toNat < 0xd800 ∨ 0xdfff < c.toNat ∧ c.toNat < 0x110000 := c.valid
  omega

/-- The code point of a character. -/
def codePoint (c : Char) : CodePoint := ⟨c.toNat, toNat_lt_codePoints c⟩

/-- The code points of a string. -/
def codePoints (s : String) : List CodePoint := s.toList.map codePoint

theorem codePoint_lt_iff {c d : Char} : codePoint c < codePoint d ↔ c < d := Iff.rfl

theorem codePoint_injective : Function.Injective codePoint := by
  intro c d h
  have hval : (codePoint c).val = (codePoint d).val := congrArg Fin.val h
  exact Char.toNat_inj.mp hval

theorem codePoints_injective : Function.Injective codePoints := by
  intro s t h
  exact String.toList_inj.mp (List.map_injective_iff.mpr codePoint_injective h)

theorem codePoints_le_iff {s t : String} :
    codePoints s ≤ codePoints t ↔ s.toList ≤ t.toList := by
  have hlt : ∀ {cs ds : List Char}, cs < ds → cs.map codePoint < ds.map codePoint :=
    fun h => List.map_lt (fun _ _ => codePoint_lt_iff.mpr) h
  constructor
  · intro h
    by_contra hle
    exact absurd (hlt (not_le.mp hle)) (not_lt.mpr h)
  · intro h
    rcases lt_or_eq_of_le h with hst | heq
    · exact le_of_lt (hlt hst)
    · unfold codePoints
      rw [heq]

/-! ## Values -/

/-- A value of JSON whose strings are those of Python. -/
inductive PyJson where
  | null
  | bool (b : Bool)
  | int (n : Int)
  | float (x : PyFloat)
  | str (s : List CodePoint)
  | arr (items : List PyJson)
  | obj (members : List (List CodePoint × PyJson))

namespace PyJson

/-- The value under a key. -/
def lookup (key : List CodePoint) (members : List (List CodePoint × PyJson)) :
    Option PyJson :=
  (members.find? (fun m => m.1 = key)).map Prod.snd

/-- Equal as JSON, where the order of an object's keys does not count. -/
inductive Same : PyJson → PyJson → Prop where
  | null : Same null null
  | bool (b : Bool) : Same (bool b) (bool b)
  | int (n : Int) : Same (int n) (int n)
  | float (x : PyFloat) : Same (float x) (float x)
  | str (s : List CodePoint) : Same (str s) (str s)
  | arr {xs ys : List PyJson} : List.Forall₂ Same xs ys → Same (arr xs) (arr ys)
  | obj {ms ns : List (List CodePoint × PyJson)} :
      (∀ key, Option.Rel Same (lookup key ms) (lookup key ns)) →
      Same (obj ms) (obj ns)

mutual

/-- A value whose strings have no surrogates. -/
def ofJson : Json → PyJson
  | .null => null
  | .bool b => bool b
  | .int n => int n
  | .float x => float x
  | .str s => str (codePoints s)
  | .arr items => arr (ofItems items)
  | .obj members => obj (ofMembers members)

/-- The items of a list. -/
def ofItems : List Json → List PyJson
  | [] => []
  | x :: rest => ofJson x :: ofItems rest

/-- The members of an object. -/
def ofMembers : List (String × Json) → List (List CodePoint × PyJson)
  | [] => []
  | (key, x) :: rest => (codePoints key, ofJson x) :: ofMembers rest

end

theorem ofItems_eq (items : List Json) : ofItems items = items.map ofJson := by
  induction items with
  | nil => rfl
  | cons x rest ih => rw [ofItems, ih, List.map_cons]

theorem ofMembers_eq (members : List (String × Json)) :
    ofMembers members = members.map (fun m => (codePoints m.1, ofJson m.2)) := by
  induction members with
  | nil => rfl
  | cons m rest ih => rw [ofMembers, ih, List.map_cons]

/-! ## The canonical text -/

/-- One code point as `ensure_ascii` prints it. -/
def escapeCodePoint (c : CodePoint) : List Char :=
  if c.val = 0x22 then ['\\', '"']
  else if c.val = 0x5c then ['\\', '\\']
  else if c.val = 10 then ['\\', 'n']
  else if c.val = 13 then ['\\', 'r']
  else if c.val = 9 then ['\\', 't']
  else if c.val = 12 then ['\\', 'f']
  else if c.val = 8 then ['\\', 'b']
  else if 32 ≤ c.val ∧ c.val ≤ 126 then [Char.ofNat c.val]
  else if c.val < 0x10000 then '\\' :: 'u' :: Json.hex4 c.val
  else
    let n := c.val - 0x10000
    '\\' :: 'u' :: Json.hex4 (0xd800 + n / 1024) ++
      '\\' :: 'u' :: Json.hex4 (0xdc00 + n % 1024)

/-- A string in quotes. -/
def quote (s : List CodePoint) : List Char := '"' :: s.flatMap escapeCodePoint ++ ['"']

section Print

variable (floats : FloatText)

mutual

/-- The text of a value, without spaces. -/
def print : PyJson → List Char
  | null => "null".toList
  | bool b => (if b then "true" else "false").toList
  | int n => n.repr.toList
  | float x => (floats.text x).toList
  | str s => quote s
  | arr items => '[' :: printItems true items
  | obj members => '{' :: printMembers true members

/-- The items of a list, up to its closing bracket. -/
def printItems : Bool → List PyJson → List Char
  | _, [] => [']']
  | first, x :: rest =>
      (if first then [] else [',']) ++ print x ++ printItems false rest

/-- The members of an object, up to its closing bracket. -/
def printMembers : Bool → List (List CodePoint × PyJson) → List Char
  | _, [] => ['}']
  | first, (key, x) :: rest =>
      (if first then [] else [',']) ++ quote key ++ ':' :: print x ++
        printMembers false rest

end

end Print

/-- The order `sort_keys` puts the members of an object in. -/
def KeyLE (m n : List CodePoint × PyJson) : Prop := m.1 ≤ n.1

instance : DecidableRel KeyLE := fun m n => by
  unfold KeyLE
  infer_instance

mutual

/-- The value with the keys of all its objects sorted. -/
def sortKeys : PyJson → PyJson
  | arr items => arr (sortItems items)
  | obj members => obj ((sortMembers members).insertionSort KeyLE)
  | x => x

/-- Sorts the items of a list. -/
def sortItems : List PyJson → List PyJson
  | [] => []
  | x :: rest => sortKeys x :: sortItems rest

/-- Sorts the values of an object. -/
def sortMembers : List (List CodePoint × PyJson) → List (List CodePoint × PyJson)
  | [] => []
  | (key, x) :: rest => (key, sortKeys x) :: sortMembers rest

end

/-- `json.dumps(x, sort_keys=True, separators=(",", ":"))`. -/
def dumps (floats : FloatText) (x : PyJson) : String :=
  String.ofList (print floats (sortKeys x))

section Hashes

variable (host : AdmissionHost)

/-- `canonical_payload_hash`. -/
def canonicalPayloadHash (payload : PyJson) : String :=
  host.sha256 (payload.dumps host.floats)

/-- `compute_params_fingerprint`. -/
def computeParamsFingerprint (params : PyJson) : String :=
  host.sha256 (params.dumps host.floats)

end Hashes

/-! ## Without surrogates -/

theorem escapeCodePoint_codePoint (c : Char) :
    escapeCodePoint (codePoint c) = Json.escapeChar c := by
  have heq : ∀ d : Char, c = d ↔ c.toNat = d.toNat := fun _ => Char.toNat_inj.symm
  unfold escapeCodePoint Json.escapeChar
  simp only [codePoint, heq, Char.ofNat_toNat]
  rfl

theorem quote_codePoints (s : String) : quote (codePoints s) = Json.quote s := by
  unfold quote Json.quote codePoints Json.escape
  rw [List.flatMap_map]
  simp only [escapeCodePoint_codePoint]

section Print

variable (floats : FloatText)

theorem printItems_ofItems {xs : List Json}
    (ih : ∀ x ∈ xs, print floats (ofJson x) = Json.print floats x) (first : Bool) :
    printItems floats first (ofItems xs) = Json.printItems floats first xs := by
  induction xs generalizing first with
  | nil => rfl
  | cons x xs htail =>
      rw [ofItems, printItems, Json.printItems, ih x (List.mem_cons_self ..),
        htail (fun y hy => ih y (List.mem_cons_of_mem _ hy))]

theorem printMembers_ofMembers {ms : List (String × Json)}
    (ih : ∀ m ∈ ms, print floats (ofJson m.2) = Json.print floats m.2) (first : Bool) :
    printMembers floats first (ofMembers ms) = Json.printMembers floats first ms := by
  induction ms generalizing first with
  | nil => rfl
  | cons m ms htail =>
      rw [ofMembers, printMembers, Json.printMembers, quote_codePoints,
        ih m (List.mem_cons_self ..),
        htail (fun n hn => ih n (List.mem_cons_of_mem _ hn))]

theorem print_ofJson (x : Json) : print floats (ofJson x) = Json.print floats x := by
  induction x using Json.induction with
  | null => rfl
  | bool b => rfl
  | int n => rfl
  | float v => rfl
  | str s => exact quote_codePoints s
  | arr items ih =>
      rw [ofJson, print, Json.print, printItems_ofItems floats ih]
  | obj members ih =>
      rw [ofJson, print, Json.print, printMembers_ofMembers floats ih]

end Print

theorem sortItems_ofItems {xs : List Json}
    (ih : ∀ x ∈ xs, sortKeys (ofJson x) = ofJson x.sortKeys) :
    sortItems (ofItems xs) = ofItems (Json.sortItems xs) := by
  induction xs with
  | nil => rfl
  | cons x xs htail =>
      rw [ofItems, sortItems, Json.sortItems, ofItems, ih x (List.mem_cons_self ..),
        htail (fun y hy => ih y (List.mem_cons_of_mem _ hy))]

theorem sortMembers_ofMembers {ms : List (String × Json)}
    (ih : ∀ m ∈ ms, sortKeys (ofJson m.2) = ofJson m.2.sortKeys) :
    sortMembers (ofMembers ms) = ofMembers (Json.sortMembers ms) := by
  induction ms with
  | nil => rfl
  | cons m ms htail =>
      rw [ofMembers, sortMembers, Json.sortMembers, ofMembers,
        ih m (List.mem_cons_self ..),
        htail (fun n hn => ih n (List.mem_cons_of_mem _ hn))]

/-- The keys of strings are sorted as their code points are. -/
theorem insertionSort_ofMembers (ms : List (String × Json)) :
    (ofMembers ms).insertionSort KeyLE = ofMembers (ms.insertionSort Json.KeyLE) := by
  have hkeys : ∀ m ∈ ms, ∀ n ∈ ms, Json.KeyLE m n ↔
      KeyLE (codePoints m.1, ofJson m.2) (codePoints n.1, ofJson n.2) :=
    fun _ _ _ _ => codePoints_le_iff.symm
  rw [ofMembers_eq, ofMembers_eq]
  exact (List.map_insertionSort Json.KeyLE KeyLE _ ms hkeys).symm

theorem sortKeys_ofJson (x : Json) : sortKeys (ofJson x) = ofJson x.sortKeys := by
  induction x using Json.induction with
  | null => rfl
  | bool b => rfl
  | int n => rfl
  | float v => rfl
  | str s => rfl
  | arr items ih =>
      rw [ofJson, sortKeys, Json.sortKeys, ofJson, sortItems_ofItems ih]
  | obj members ih =>
      rw [ofJson, sortKeys, Json.sortKeys, ofJson, sortMembers_ofMembers ih,
        insertionSort_ofMembers]

/-- Without surrogates, both texts are the same. -/
theorem dumps_ofJson (floats : FloatText) (x : Json) :
    (ofJson x).dumps floats = x.dumps floats := by
  unfold dumps Json.dumps
  rw [sortKeys_ofJson, print_ofJson]

/-! ### Equality -/

theorem lookup_ofMembers (key : String) (ms : List (String × Json)) :
    lookup (codePoints key) (ofMembers ms) = (Json.lookup key ms).map ofJson := by
  unfold lookup Json.lookup
  rw [ofMembers_eq, List.find?_map, Option.map_map, Option.map_map]
  simp only [Function.comp_def, codePoints_injective.eq_iff]

/-- A key with a surrogate is in no such object. -/
theorem lookup_ofMembers_none {key : List CodePoint}
    (hkey : ∀ s, codePoints s ≠ key) (ms : List (String × Json)) :
    lookup key (ofMembers ms) = none := by
  unfold lookup
  rw [ofMembers_eq, List.find?_map, Option.map_map, Option.map_eq_none_iff]
  exact List.find?_eq_none.mpr (fun m _ => by simp [hkey])

theorem forall₂_ofItems {xs : List Json} :
    ∀ {ys : List Json}, (∀ x ∈ xs, ∀ {y}, Same (ofJson x) (ofJson y) ↔ Json.Same x y) →
      (List.Forall₂ Same (ofItems xs) (ofItems ys) ↔ List.Forall₂ Json.Same xs ys) := by
  induction xs with
  | nil =>
      intro ys _
      cases ys <;> simp [ofItems]
  | cons x xs ih =>
      intro ys hitems
      cases ys with
      | nil => simp [ofItems]
      | cons y ys =>
          rw [ofItems, ofItems, List.forall₂_cons, List.forall₂_cons,
            hitems x (List.mem_cons_self ..),
            ih (fun z hz => hitems z (List.mem_cons_of_mem _ hz))]

theorem rel_map_ofJson {a b : Option Json}
    (h : ∀ x ∈ a, ∀ {y}, Same (ofJson x) (ofJson y) ↔ Json.Same x y) :
    Option.Rel Same (a.map ofJson) (b.map ofJson) ↔ Option.Rel Json.Same a b := by
  cases a with
  | none => cases b <;> simp
  | some x =>
      cases b with
      | none => simp
      | some y => simpa using h x rfl

theorem rel_lookup_ofMembers {ms ns : List (String × Json)}
    (h : ∀ m ∈ ms, ∀ {y}, Same (ofJson m.2) (ofJson y) ↔ Json.Same m.2 y) :
    (∀ key, Option.Rel Same (lookup key (ofMembers ms)) (lookup key (ofMembers ns))) ↔
      ∀ key, Option.Rel Json.Same (Json.lookup key ms) (Json.lookup key ns) := by
  have hvalues : ∀ key, ∀ x ∈ Json.lookup key ms,
      ∀ {y}, Same (ofJson x) (ofJson y) ↔ Json.Same x y := by
    intro key x hx
    obtain ⟨m, hm, rfl⟩ := Option.map_eq_some_iff.mp hx
    exact h m (List.mem_of_find?_eq_some hm)
  have hkeys : ∀ key, Option.Rel Same (lookup (codePoints key) (ofMembers ms))
      (lookup (codePoints key) (ofMembers ns)) ↔
        Option.Rel Json.Same (Json.lookup key ms) (Json.lookup key ns) := by
    intro key
    rw [lookup_ofMembers, lookup_ofMembers, rel_map_ofJson (hvalues key)]
  constructor
  · exact fun hall key => (hkeys key).mp (hall (codePoints key))
  · intro hall key
    by_cases hkey : ∃ s, codePoints s = key
    · obtain ⟨s, rfl⟩ := hkey
      exact (hkeys s).mpr (hall s)
    · have hnone := not_exists.mp hkey
      rw [lookup_ofMembers_none hnone, lookup_ofMembers_none hnone]
      exact .none

theorem eq_of_same_str {a b : List CodePoint} (h : Same (str a) (str b)) : a = b := by
  cases h
  rfl

/-- Without surrogates, both say the same of two values. -/
theorem same_ofJson {x : Json} :
    ∀ {y : Json}, Same (ofJson x) (ofJson y) ↔ Json.Same x y := by
  induction x using Json.induction with
  | null =>
      intro y
      constructor <;> intro h <;> cases y <;> first | exact .null | cases h
  | bool b =>
      intro y
      constructor <;> intro h <;> cases y <;> cases h <;> exact .bool b
  | int n =>
      intro y
      constructor <;> intro h <;> cases y <;> cases h <;> exact .int n
  | float v =>
      intro y
      constructor <;> intro h <;> cases y <;> cases h <;> exact .float v
  | str s =>
      intro y
      constructor
      · intro h
        cases y with
        | str t => exact codePoints_injective (eq_of_same_str h) ▸ .str s
        | _ => cases h
      · intro h
        cases h
        exact .str (codePoints s)
  | arr xs ih =>
      intro y
      constructor
      · intro h
        cases y with
        | arr ys =>
            cases h with
            | arr hall => exact .arr ((forall₂_ofItems ih).mp hall)
        | _ => cases h
      · intro h
        cases h with
        | arr hall => exact .arr ((forall₂_ofItems ih).mpr hall)
  | obj ms ih =>
      intro y
      constructor
      · intro h
        cases y with
        | obj ns =>
            cases h with
            | obj hrel => exact .obj ((rel_lookup_ofMembers ih).mp hrel)
        | _ => cases h
      · intro h
        cases h with
        | obj hrel => exact .obj ((rel_lookup_ofMembers ih).mpr hrel)

/-! ## Surrogates -/

theorem lookup_singleton (key : List CodePoint) (x : PyJson) :
    lookup key [(key, x)] = some x := by
  simp [lookup]

/-- Beyond ASCII a code point is printed as one escape or as two. -/
theorem escapeCodePoint_of_lt {n : Nat} (hn : n < 0x110000) (h : 126 < n) :
    escapeCodePoint ⟨n, hn⟩ =
      if n < 0x10000 then '\\' :: 'u' :: Json.hex4 n
      else '\\' :: 'u' :: Json.hex4 (0xd800 + (n - 0x10000) / 1024) ++
        '\\' :: 'u' :: Json.hex4 (0xdc00 + (n - 0x10000) % 1024) := by
  unfold escapeCodePoint
  dsimp only
  rw [if_neg (by omega), if_neg (by omega), if_neg (by omega), if_neg (by omega),
    if_neg (by omega), if_neg (by omega), if_neg (by omega), if_neg (by omega)]

/-- A pair of surrogates is printed as the code point it stands for. -/
theorem escape_surrogates {high low : Nat} (hhigh : 0xd800 ≤ high ∧ high < 0xdc00)
    (hlow : 0xdc00 ≤ low ∧ low < 0xe000) :
    [(⟨high, by omega⟩ : CodePoint), ⟨low, by omega⟩].flatMap escapeCodePoint =
      escapeCodePoint ⟨0x10000 + 1024 * (high - 0xd800) + (low - 0xdc00), by omega⟩ := by
  have hdiv : 0xd800 + (1024 * (high - 0xd800) + (low - 0xdc00)) / 1024 = high := by
    omega
  have hmod : 0xdc00 + (1024 * (high - 0xd800) + (low - 0xdc00)) % 1024 = low := by
    omega
  rw [List.flatMap_cons, List.flatMap_singleton,
    escapeCodePoint_of_lt _ (show 126 < high by omega), if_pos (by omega),
    escapeCodePoint_of_lt _ (show 126 < low by omega), if_pos (by omega),
    escapeCodePoint_of_lt _ (by omega), if_neg (by omega), Nat.add_assoc,
    Nat.add_sub_cancel_left, hdiv, hmod]

/-- So an object keeps its canonical text when a pair of surrogates becomes the code
point it stands for. -/
theorem dumps_surrogates (floats : FloatText) (key : List CodePoint) {high low : Nat}
    (hhigh : 0xd800 ≤ high ∧ high < 0xdc00) (hlow : 0xdc00 ≤ low ∧ low < 0xe000) :
    dumps floats (.obj [(key, .str [⟨high, by omega⟩, ⟨low, by omega⟩])]) =
      dumps floats (.obj [(key, .str
        [⟨0x10000 + 1024 * (high - 0xd800) + (low - 0xdc00), by omega⟩])]) := by
  simp only [dumps, sortKeys, sortMembers, List.insertionSort_cons,
    List.insertionSort_nil, List.orderedInsert_nil, print, printMembers, quote,
    escape_surrogates hhigh hlow, List.flatMap_singleton]

/-- A prompt of two surrogates. -/
def surrogatePrompt : PyJson := .obj [(codePoints "prompt", .str [0xd83d, 0xde00])]

/-- A prompt of the code point the two stand for. -/
def facePrompt : PyJson := .obj [(codePoints "prompt", .str [0x1f600])]

/-- Two objects that differ, with one hash, and that by no collision. -/
theorem not_canonical_hashes :
    Function.Injective plainHost.sha256 ∧ ¬ Same surrogatePrompt facePrompt ∧
      canonicalPayloadHash plainHost surrogatePrompt =
        canonicalPayloadHash plainHost facePrompt ∧
      computeParamsFingerprint plainHost surrogatePrompt =
        computeParamsFingerprint plainHost facePrompt := by
  have htext := dumps_surrogates plainHost.floats (codePoints "prompt")
    (show 0xd800 ≤ 0xd83d ∧ 0xd83d < 0xdc00 by decide)
    (show 0xdc00 ≤ 0xde00 ∧ 0xde00 < 0xe000 by decide)
  refine ⟨plainSha256_injective, ?_, congrArg plainHost.sha256 htext,
    congrArg plainHost.sha256 htext⟩
  intro h
  cases h with
  | obj hrel =>
      have hprompt : Option.Rel Same (some (str [0xd83d, 0xde00])) (some (str [0x1f600])) := by
        have hkey := hrel (codePoints "prompt")
        rwa [lookup_singleton, lookup_singleton] at hkey
      cases hprompt with
      | some h => exact absurd (eq_of_same_str h) (by decide)

end PyJson

end Imagin4.Ports
