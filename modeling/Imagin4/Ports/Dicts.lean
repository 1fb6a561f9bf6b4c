import Imagin4.Ports.CanonicalJson

/-!
# Dicts of JSON values

A request's `inputs` and a job's `input_payload` are Python dicts with string
keys.  `Dict` is such a dict, in insertion order, whose values are JSON; that no
key of it or of a dict inside it occurs twice is a field, so that the canonical
text tells two of them apart exactly if they differ.
-/

namespace Imagin4.Ports

namespace Json

/-- `d[key] = x`: in place if the key is there, behind the others if not. -/
def setMember (key : String) (x : Json) :
    List (String × Json) → List (String × Json)
  | [] => [(key, x)]
  | m :: rest => if m.1 = key then (key, x) :: rest else m :: setMember key x rest

theorem mem_keys_setMember {key k : String} {x : Json}
    {members : List (String × Json)} :
    k ∈ (setMember key x members).map Prod.fst ↔
      k = key ∨ k ∈ members.map Prod.fst := by
  induction members with
  | nil => simp [setMember]
  | cons m rest ih =>
      unfold setMember
      by_cases hm : m.1 = key
      · simp [hm]
      · simp only [if_neg hm, List.map_cons, List.mem_cons, ih]
        tauto

/-- What `d[key] = x` leaves under a key. -/
theorem lookup_setMember (key k : String) (x : Json)
    (members : List (String × Json)) :
    lookup k (setMember key x members) =
      if k = key then some x else lookup k members := by
  induction members with
  | nil =>
      by_cases hk : k = key
      · simp [setMember, lookup, hk]
      · simp [setMember, lookup, hk, Ne.symm hk]
  | cons m rest ih =>
      unfold setMember
      by_cases hm : m.1 = key
      · rw [if_pos hm]
        by_cases hk : k = key
        · simp [lookup, hk]
        · have hmk : m.1 ≠ k := fun h => hk (h.symm.trans hm)
          simp [lookup, hk, Ne.symm hk, hmk]
      · rw [if_neg hm]
        by_cases hmk : m.1 = k
        · have hk : k ≠ key := fun h => hm (hmk.trans h)
          simp [lookup, hmk, hk]
        · have hcons : ∀ ms, lookup k (m :: ms) = lookup k ms := by
            intro ms
            simp [lookup, hmk]
          rw [hcons, hcons, ih]

theorem nodup_setMember {key : String} {x : Json}
    {members : List (String × Json)} (h : (members.map Prod.fst).Nodup) :
    ((setMember key x members).map Prod.fst).Nodup := by
  induction members with
  | nil => simp [setMember]
  | cons m rest ih =>
      rw [List.map_cons, List.nodup_cons] at h
      unfold setMember
      by_cases hm : m.1 = key
      · rw [if_pos hm, List.map_cons, List.nodup_cons]
        exact ⟨hm ▸ h.1, h.2⟩
      · rw [if_neg hm, List.map_cons, List.nodup_cons, mem_keys_setMember]
        exact ⟨fun hor => hor.elim hm h.1, ih h.2⟩

theorem mem_setMember {key : String} {x : Json} {m : String × Json}
    {members : List (String × Json)} (h : m ∈ setMember key x members) :
    m = (key, x) ∨ m ∈ members := by
  induction members with
  | nil => exact .inl (List.mem_singleton.mp h)
  | cons n rest ih =>
      unfold setMember at h
      split at h
      · rcases List.mem_cons.mp h with h | h
        · exact .inl h
        · exact .inr (List.mem_cons_of_mem n h)
      · rcases List.mem_cons.mp h with rfl | h
        · exact .inr (List.mem_cons_self ..)
        · exact (ih h).imp_right (List.mem_cons_of_mem n)

theorem isDict_setMember {key : String} {x : Json} (hx : IsDict x)
    {members : List (String × Json)} (h : IsDict (obj members)) :
    IsDict (obj (setMember key x members)) := by
  cases h with
  | obj hkeys hvalues =>
      refine .obj (nodup_setMember hkeys) (fun m hm => ?_)
      rcases mem_setMember hm with rfl | hm
      · exact hx
      · exact hvalues m hm

mutual

/-- Does no object of the value have a key twice? -/
def keysDistinct : Json → Bool
  | arr items => itemKeysDistinct items
  | obj members => decide (members.map Prod.fst).Nodup && memberKeysDistinct members
  | _ => true

/-- The same for the items of a list. -/
def itemKeysDistinct : List Json → Bool
  | [] => true
  | x :: rest => keysDistinct x && itemKeysDistinct rest

/-- The same for the values of an object. -/
def memberKeysDistinct : List (String × Json) → Bool
  | [] => true
  | (_, x) :: rest => keysDistinct x && memberKeysDistinct rest

end

theorem itemKeysDistinct_iff {items : List Json} :
    itemKeysDistinct items = true ↔ ∀ x ∈ items, keysDistinct x = true := by
  induction items with
  | nil => simp [itemKeysDistinct]
  | cons x rest ih => simp [itemKeysDistinct, ih]

theorem memberKeysDistinct_iff {members : List (String × Json)} :
    memberKeysDistinct members = true ↔
      ∀ m ∈ members, keysDistinct m.2 = true := by
  induction members with
  | nil => simp [memberKeysDistinct]
  | cons m rest ih => simp [memberKeysDistinct, ih]

theorem keysDistinct_iff {x : Json} : keysDistinct x = true ↔ IsDict x := by
  induction x using induction with
  | null => exact iff_of_true rfl .null
  | bool b => exact iff_of_true rfl (.bool b)
  | int n => exact iff_of_true rfl (.int n)
  | float v => exact iff_of_true rfl (.float v)
  | str s => exact iff_of_true rfl (.str s)
  | arr items ih =>
      unfold keysDistinct
      rw [itemKeysDistinct_iff]
      constructor
      · intro h
        exact .arr (fun x hx => (ih x hx).mp (h x hx))
      · rintro (_ | _ | _ | _ | _ | hitems | _) x hx
        exact (ih x hx).mpr (hitems x hx)
  | obj members ih =>
      unfold keysDistinct
      rw [Bool.and_eq_true, decide_eq_true_eq, memberKeysDistinct_iff]
      constructor
      · rintro ⟨hkeys, hvalues⟩
        exact .obj hkeys (fun m hm => (ih m hm).mp (hvalues m hm))
      · intro h
        cases h with
        | obj hkeys hvalues =>
            exact ⟨hkeys, fun m hm => (ih m hm).mpr (hvalues m hm)⟩

instance : DecidablePred IsDict := fun _ =>
  decidable_of_iff _ keysDistinct_iff

/-- Every value is equal to itself. -/
theorem same_refl (x : Json) : Same x x := by
  induction x using induction with
  | null => exact .null
  | bool b => exact .bool b
  | int n => exact .int n
  | float v => exact .float v
  | str s => exact .str s
  | arr items ih =>
      exact .arr (List.forall₂_same.mpr ih)
  | obj members ih =>
      refine .obj (fun key => ?_)
      cases hkey : lookup key members with
      | none => exact .none
      | some x =>
          unfold lookup at hkey
          obtain ⟨m, hm, rfl⟩ := Option.map_eq_some_iff.mp hkey
          exact .some (ih m (List.mem_of_find?_eq_some hm))

theorem lookup_isSome_of_mem {m : String × Json} {members : List (String × Json)}
    (h : m ∈ members) : (lookup m.1 members).isSome = true := by
  unfold lookup
  rw [Option.isSome_map, List.find?_isSome]
  exact ⟨m, h, decide_eq_true rfl⟩

/-- Equal values are equally true. -/
theorem truthy_of_same {x y : Json} (h : Same x y) : x.truthy = y.truthy := by
  cases h with
  | arr hitems => cases hitems <;> rfl
  | @obj ms ns hkeys =>
      have hempty : ∀ {ms ns : List (String × Json)},
          (∀ key, (lookup key ms).isSome = (lookup key ns).isSome) →
          ns = [] → ms = [] := by
        intro ms ns hsome hns
        subst hns
        by_contra hms
        obtain ⟨m, rest, rfl⟩ := List.exists_cons_of_ne_nil hms
        have hm := lookup_isSome_of_mem (List.mem_cons_self (a := m) (l := rest))
        rw [hsome] at hm
        cases hm
      have hsome : ∀ key, (lookup key ms).isSome = (lookup key ns).isSome := by
        intro key
        have hrel := hkeys key
        generalize lookup key ms = a at hrel ⊢
        generalize lookup key ns = b at hrel ⊢
        cases hrel <;> rfl
      have hiff : ms = [] ↔ ns = [] :=
        ⟨hempty (fun key => (hsome key).symm), hempty hsome⟩
      cases ms <;> cases ns <;> simp_all [truthy]
  | _ => rfl

end Json

/-- A Python dict of JSON values. -/
structure Dict where
  members : List (String × Json)
  isDict : (Json.obj members).IsDict

namespace Dict

/-- The dict as a JSON value. -/
def json (d : Dict) : Json := .obj d.members

/-- `{}`. -/
def empty : Dict := ⟨[], .obj List.nodup_nil (fun _ h => by cases h)⟩

/-- `d.get(key)`. -/
def get (d : Dict) (key : String) : Json :=
  (Json.lookup key d.members).getD .null

/-- `d[key] = x`. -/
def set (key : String) (x : Json) (hx : x.IsDict) (d : Dict) : Dict :=
  ⟨Json.setMember key x d.members, Json.isDict_setMember hx d.isDict⟩

/-- `d.get(key, default)`. -/
def getD (d : Dict) (key : String) (default : Json) : Json :=
  (Json.lookup key d.members).getD default

theorem isDict_getD (d : Dict) (key : String) {default : Json}
    (hdefault : default.IsDict) : (d.getD key default).IsDict := by
  unfold getD
  cases h : Json.lookup key d.members with
  | none => exact hdefault
  | some x => exact Json.isDict_of_lookup d.isDict h

theorem isDict_get (d : Dict) (key : String) : (d.get key).IsDict :=
  d.isDict_getD key .null

theorem get_set (d : Dict) (key k : String) (x : Json) (hx : x.IsDict) :
    (d.set key x hx).get k = if k = key then x else d.get k := by
  unfold get set
  dsimp only
  rw [Json.lookup_setMember]
  split <;> rfl

theorem json_inj {d e : Dict} (h : d.json = e.json) : d = e := by
  cases d
  cases e
  cases h
  rfl

/-- The value of a key, if it has one. -/
def lookup (d : Dict) (key : String) : Option Json := Json.lookup key d.members

theorem lookup_empty (key : String) : empty.lookup key = none := rfl

theorem lookup_set (d : Dict) (key k : String) (x : Json) (hx : x.IsDict) :
    (d.set key x hx).lookup k = if k = key then some x else d.lookup k :=
  Json.lookup_setMember key k x d.members

theorem get_eq_lookup (d : Dict) (key : String) :
    d.get key = (d.lookup key).getD .null := rfl

theorem same_json_iff {d e : Dict} : d.json.Same e.json ↔
    ∀ key, Option.Rel Json.Same (d.lookup key) (e.lookup key) := by
  constructor
  · intro h
    cases h with
    | obj hkeys => exact hkeys
  · exact .obj

/-- Two dicts are equal if they have the same values. -/
theorem same_json {d e : Dict} (h : ∀ key, d.lookup key = e.lookup key) :
    d.json.Same e.json := by
  refine same_json_iff.mpr (fun key => ?_)
  rw [h key]
  cases e.lookup key with
  | none => exact .none
  | some x => exact .some (Json.same_refl x)

/-- The dict without a key. -/
def erase (key : String) (d : Dict) : Dict where
  members := d.members.filter (fun m => m.1 ≠ key)
  isDict := by
    cases d.isDict with
    | obj hkeys hvalues =>
        refine .obj (hkeys.sublist (List.filter_sublist.map Prod.fst)) ?_
        intro m hm
        exact hvalues m (List.mem_of_mem_filter hm)

theorem lookup_erase (d : Dict) (key k : String) :
    (d.erase key).lookup k = if k = key then none else d.lookup k := by
  unfold lookup Json.lookup erase
  rw [List.find?_filter]
  by_cases hk : k = key
  · subst hk
    simp
  · rw [if_neg hk]
    congr 2
    funext m
    by_cases hm : m.1 = k
    · simp [hm, hk]
    · simp [hm]

end Dict

end Imagin4.Ports
