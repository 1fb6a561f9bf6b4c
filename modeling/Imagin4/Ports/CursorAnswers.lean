import Mathlib.Tactic.Linarith
import Imagin4.Ports.MessagePages

/-!
# Answers to cursors

`list_messages` of `app/api/v1/conversations.py`, for any text that comes as the
cursor.  `Cursor.decode` turns every exception into an `InvalidCursorError`, which
becomes a 400; `int(decoded.sort_key)` stands behind that `try`, and the driver
refuses what is no `BIGINT`.

## Main results

* `Json.isPosition_iff` — the sort keys a page can start behind.
* `answered_iff` — when a cursor leads to a page or to a 400.
-/

namespace Imagin4.Ports

open Imagin4.Verified

/-! ## Sort keys -/

namespace Json

variable (host : AdmissionHost)

/-- A sort key of which `int` makes a `BIGINT`. -/
def isPosition : Json → Bool
  | bool _ => true
  | int k => isBigInt k
  | float (.finite value) => decide (-2 ^ 63 - 1 < value ∧ value < 2 ^ 63)
  | float .negZero => true
  | str s =>
      decide ((s.toList.filter (fun c => (host.digit c).isSome)).length ≤ maxStrDigits) &&
        match pyInt host.toHost s with
        | some k => isBigInt k
        | none => false
  | _ => false

end Json

theorem isBigInt_iff {k : Int} : isBigInt k = true ↔ -2 ^ 63 ≤ k ∧ k < 2 ^ 63 :=
  decide_eq_true_iff

/-- A number rounded towards zero is a `BIGINT` just if it lies between the integers
that are none. -/
theorem isBigInt_trunc (value : Rat) :
    isBigInt (if value < 0 then -((-value).floor) else value.floor) = true ↔
      -2 ^ 63 - 1 < value ∧ value < 2 ^ 63 := by
  have hlower : (-value).floor < 2 ^ 63 + 1 ↔ -value < 2 ^ 63 + 1 := by
    rw [Rat.floor_lt_iff]
    norm_num
  have hupper : value.floor < 2 ^ 63 ↔ value < 2 ^ 63 := by
    rw [Rat.floor_lt_iff]
    norm_num
  rw [isBigInt_iff]
  by_cases hneg : value < 0
  · have hfloor : 0 ≤ (-value).floor := by
      rw [Rat.le_floor_iff, Int.cast_zero]
      linarith
    have hsmall : value < 2 ^ 63 := by linarith
    rw [if_pos hneg]
    constructor
    · rintro ⟨hle, -⟩
      have hvalue := hlower.mp (by omega)
      exact ⟨by linarith, hsmall⟩
    · rintro ⟨hlt, -⟩
      have hle := hlower.mpr (by linarith)
      omega
  · have hfloor : 0 ≤ value.floor := by
      rw [Rat.le_floor_iff, Int.cast_zero]
      linarith
    rw [if_neg hneg]
    constructor
    · rintro ⟨-, hlt⟩
      exact ⟨by linarith, hupper.mp hlt⟩
    · rintro ⟨-, hlt⟩
      have hlt := hupper.mpr hlt
      omega

/-- The sort keys that `int` and the driver take. -/
theorem Json.isPosition_iff (host : AdmissionHost) (key : Json) :
    key.isPosition host = true ↔
      ∃ k, key.toInt host = .ok k ∧ isBigInt k = true := by
  have hok : ∀ {x : Except PyError Int} {k : Int}, x = .ok k →
      ((∃ k, x = .ok k ∧ isBigInt k = true) ↔ isBigInt k = true) := by
    rintro _ k rfl
    exact ⟨fun ⟨_, h, hk⟩ => Except.ok.inj h ▸ hk, fun hk => ⟨k, rfl, hk⟩⟩
  have herror : ∀ {x : Except PyError Int} {e : PyError}, x = .error e →
      ¬∃ k, x = .ok k ∧ isBigInt k = true := by
    rintro _ e rfl ⟨k, h, -⟩
    cases h
  cases key with
  | null => exact iff_of_false nofun (herror rfl)
  | bool b =>
      refine Iff.trans ?_ (hok rfl).symm
      cases b <;> exact iff_of_true rfl rfl
  | int k => exact (hok rfl).symm
  | float x =>
      cases x with
      | finite value =>
          refine Iff.trans ?_ (hok rfl).symm
          rw [isBigInt_trunc]
          exact decide_eq_true_iff
      | negZero => exact iff_of_true rfl ⟨0, rfl, rfl⟩
      | inf => exact iff_of_false nofun (herror rfl)
      | negInf => exact iff_of_false nofun (herror rfl)
      | nan => exact iff_of_false nofun (herror rfl)
  | str s =>
      unfold isPosition toInt
      dsimp only
      by_cases hlong : maxStrDigits <
          (s.toList.filter (fun c => (host.digit c).isSome)).length
      · rw [if_pos hlong, decide_eq_false (by omega)]
        exact iff_of_false nofun (herror rfl)
      · rw [if_neg hlong, decide_eq_true (by omega), Bool.true_and]
        cases pyInt host.toHost s with
        | none => exact iff_of_false nofun (herror rfl)
        | some k => exact (hok rfl).symm
  | arr items => exact iff_of_false nofun (herror rfl)
  | obj members => exact iff_of_false nofun (herror rfl)

/-! ## What becomes of a cursor -/

section Answers

variable (host : PageHost) (conversationId : Uuid)

/-- Does the dictionary in a text, if there is one with a sort key and an id, have a
sort key that a page can start behind? -/
def keyFits (cursor : String) : Bool :=
  match Cursor.read host cursor with
  | none => true
  | some data =>
      match data.item "k", data.item "id" with
      | .ok key, .ok _ => key.isPosition host.toAdmissionHost
      | _, _ => true

/-- The integer that a cursor stands for.  An empty one counts as none, and stands in
front of all messages. -/
inductive StandsFor (messages : List ChatMessage) : String → Int → Prop
  | key {token : String} {c : Cursor} {k : Int} :
      Cursor.decode host token = .ok c →
      c.sortKey.toInt host.toAdmissionHost = .ok k → StandsFor messages token k
  | first {k : Int} :
      (∀ u ∈ ofConversation conversationId messages, k < messageKey u) →
      StandsFor messages "" k

/-- The page with the first messages behind a number, in their order. -/
def StartsAfter (k : Int) (limit : PageSize) (messages : List ChatMessage)
    (page : MessagePage) : Prop :=
  ∃ rows : List ChatMessage,
    rows.Perm ((ofConversation conversationId messages).filter
      (fun u => k < messageKey u)) ∧
    rows.Pairwise (fun u v => messageKey u ≤ messageKey v) ∧
    page.items = (rows.take limit.1).map MessageOut.fromModel

/-- A cursor leads behind the integer it stands for, or it is invalid. -/
def Answered (cursor : String) (limit : PageSize) (messages : List ChatMessage) :
    Prop :=
  listMessages host conversationId (some cursor) limit messages =
      .error (.http 400 "invalid cursor") ∨
    ∃ k page, StandsFor host conversationId messages cursor k ∧
      listMessages host conversationId (some cursor) limit messages = .ok page ∧
      StartsAfter conversationId k limit messages page

variable {host} {conversationId}

/-- What is wrong with the cursor is the answer. -/
theorem listMessages_error {cursor : Option String} {e : RouterError}
    (h : cursorPosition host cursor = .error e) (limit : PageSize)
    (messages : List ChatMessage) :
    listMessages host conversationId cursor limit messages = .error e := by
  unfold listMessages
  rw [h]

/-- A position has its page. -/
theorem listMessages_position {cursor : Option String} {position : Option Int}
    (h : cursorPosition host cursor = .ok position) (limit : PageSize)
    {messages : List ChatMessage}
    (hmessages : ∀ u ∈ ofConversation conversationId messages,
      isBigInt (messageKey u) = true) :
    ∃ page, listMessages host conversationId cursor limit messages = .ok page ∧
      page.items = (selectMessages conversationId position limit.1 messages).map
        MessageOut.fromModel := by
  have htake : (selectMessages conversationId position (limit.1 + 1) messages).take
      limit.1 = selectMessages conversationId position limit.1 messages := by
    unfold selectMessages
    rw [List.take_take, Nat.min_eq_left (by omega)]
  have hnext : ∀ hasMore, ∃ next, nextCursor host hasMore
      (selectMessages conversationId position limit.1 messages) = .ok next := by
    intro hasMore
    unfold nextCursor
    cases hasMore with
    | false => exact ⟨none, rfl⟩
    | true =>
        cases hlast : (selectMessages conversationId position limit.1
            messages).getLast? with
        | none => exact ⟨none, rfl⟩
        | some last =>
            have hmem : last ∈ ofConversation conversationId messages := by
              have hrow := List.mem_of_mem_take (List.mem_of_getLast? hlast)
              rw [List.mem_insertionSort] at hrow
              exact List.mem_of_mem_filter hrow
            obtain ⟨token, hencode, -⟩ :=
              cursorPosition_encode host (hmessages last hmem)
            refine ⟨some token, ?_⟩
            dsimp only
            rw [hencode]
  unfold listMessages
  rw [h]
  dsimp only
  rw [htake]
  obtain ⟨next, hnext⟩ := hnext (decide (limit.1 <
    (selectMessages conversationId position (limit.1 + 1) messages).length))
  rw [hnext]
  exact ⟨_, rfl, rfl⟩

/-- The page of a position starts behind it. -/
theorem startsAfter_select {position : Option Int} {k : Int} {limit : PageSize}
    {messages : List ChatMessage} {page : MessagePage}
    (hafter : ∀ u ∈ ofConversation conversationId messages,
      Keyset.isAfter messageKey position u = decide (k < messageKey u))
    (hitems : page.items = (selectMessages conversationId position limit.1
      messages).map MessageOut.fromModel) :
    StartsAfter conversationId k limit messages page := by
  have hfilter : (ofConversation conversationId messages).filter
      (Keyset.isAfter messageKey position) =
      (ofConversation conversationId messages).filter
        (fun u => k < messageKey u) := List.filter_congr hafter
  unfold selectMessages at hitems
  rw [hfilter] at hitems
  exact ⟨_, List.perm_insertionSort _ _, List.pairwise_insertionSort _ _, hitems⟩

/-- What becomes of a decoded cursor. -/
theorem cursorPosition_of_decode {token : String} {c : Cursor}
    (h : Cursor.decode host token = .ok c) :
    (∀ {e : PyError}, c.sortKey.toInt host.toAdmissionHost = .error e →
      cursorPosition host (some token) = .error (.raised e)) ∧
    ∀ {k : Int}, c.sortKey.toInt host.toAdmissionHost = .ok k →
      cursorPosition host (some token) =
        if isBigInt k then .ok (some k) else .error (.raised "DBAPIError") := by
  unfold cursorPosition
  dsimp only
  rw [if_neg (Cursor.ne_empty_of_decode host h), h]
  dsimp only
  constructor
  · intro e hkey
    rw [hkey]
  · intro k hkey
    rw [hkey]

/-- A text without a dictionary of the two keys is no cursor. -/
theorem decode_cases (token : String) :
    (∃ e, Cursor.decode host token = .error e ∧ keyFits host token = true) ∨
      ∃ c, Cursor.decode host token = .ok c ∧
        keyFits host token = c.sortKey.isPosition host.toAdmissionHost := by
  unfold Cursor.decode keyFits
  cases Cursor.read host token with
  | none => exact Or.inl ⟨_, rfl, rfl⟩
  | some data =>
      dsimp only
      cases data.item "k" with
      | error e => exact Or.inl ⟨_, rfl, rfl⟩
      | ok key =>
          cases data.item "id" with
          | error e => exact Or.inl ⟨_, rfl, rfl⟩
          | ok id => exact Or.inr ⟨_, rfl, rfl⟩

/-- An answer that is no 400 and no page is not what a cursor should lead to. -/
theorem not_answered_of_raised {cursor : String} {e : PyError}
    (h : cursorPosition host (some cursor) = .error (.raised e)) (limit : PageSize)
    (messages : List ChatMessage) :
    ¬Answered host conversationId cursor limit messages := by
  unfold Answered
  rw [listMessages_error h]
  rintro (hinvalid | ⟨k, page, -, hpage, -⟩)
  · cases hinvalid
  · cases hpage

variable (host) (conversationId)

/-- **A cursor leads to the page behind the integer it stands for, or to a 400, exactly
when its sort key, if it has one, is a `BIGINT` for `int`.**  Any other sort key raises
behind the `try` of the decoder. -/
theorem answered_iff (cursor : String) (limit : PageSize)
    (messages : List ChatMessage)
    (hmessages : ∀ u ∈ ofConversation conversationId messages,
      isBigInt (messageKey u) = true) :
    Answered host conversationId cursor limit messages ↔
      keyFits host cursor = true := by
  rcases @decode_cases host cursor with ⟨e, hdecode, hfits⟩ | ⟨c, hdecode, hfits⟩
  · refine iff_of_true ?_ hfits
    by_cases hempty : cursor = ""
    · subst hempty
      -- One less than the least `BIGINT` is in front of all messages.
      have hfront : ∀ u ∈ ofConversation conversationId messages,
          -2 ^ 63 - 1 < messageKey u := by
        intro u hu
        have hu := isBigInt_iff.mp (hmessages u hu)
        omega
      have hnone : cursorPosition host (some "") = .ok none := rfl
      obtain ⟨page, hpage, hitems⟩ := listMessages_position hnone limit hmessages
      refine Or.inr ⟨-2 ^ 63 - 1, page, .first hfront, hpage,
        startsAfter_select (fun u hu => ?_) hitems⟩
      rw [decide_eq_true (hfront u hu)]
      rfl
    · refine Or.inl (listMessages_error ?_ limit messages)
      unfold cursorPosition
      dsimp only
      rw [if_neg hempty, hdecode]
  · obtain ⟨hraises, hreads⟩ := cursorPosition_of_decode hdecode
    rw [hfits, Json.isPosition_iff]
    constructor
    · intro hanswered
      cases hkey : c.sortKey.toInt host.toAdmissionHost with
      | error e =>
          exact absurd hanswered
            (not_answered_of_raised (hraises hkey) limit messages)
      | ok k =>
          by_cases hbig : isBigInt k = true
          · exact ⟨k, rfl, hbig⟩
          · have hraised := hreads hkey
            rw [if_neg hbig] at hraised
            exact absurd hanswered (not_answered_of_raised hraised limit messages)
    · rintro ⟨k, hkey, hbig⟩
      have hposition := hreads hkey
      rw [if_pos hbig] at hposition
      obtain ⟨page, hpage, hitems⟩ := listMessages_position hposition limit hmessages
      exact Or.inr ⟨k, page, .key hdecode hkey, hpage,
        startsAfter_select (fun _ _ => rfl) hitems⟩

end Answers

/-- The cursor of the sort key `2` in a conversation of three messages. -/
theorem answered_two :
    (∀ u ∈ ofConversation 1 threeMessages, isBigInt (messageKey u) = true) ∧
      Answered pagesHost 1 "eyJrIjoyLCJpZCI6ImFiYy0xMjMifQ==" default
        threeMessages :=
  ⟨by decide, (answered_iff pagesHost 1 _ default threeMessages (by decide)).mpr
    (by decide +kernel)⟩

/-- The cursor that `Cursor.encode` makes of a point in time: its sort key is no integer
for `int`. -/
theorem not_answered_timestamp :
    Cursor.encode pagesHost ⟨.str "2024-01-01T00:00:00Z", .str "abc-123"⟩ =
        .ok "eyJrIjoiMjAyNC0wMS0wMVQwMDowMDowMFoiLCJpZCI6ImFiYy0xMjMifQ==" ∧
      cursorPosition pagesHost
          (some "eyJrIjoiMjAyNC0wMS0wMVQwMDowMDowMFoiLCJpZCI6ImFiYy0xMjMifQ==") =
        .error (.raised "ValueError") ∧
      ¬Answered pagesHost 1
        "eyJrIjoiMjAyNC0wMS0wMVQwMDowMDowMFoiLCJpZCI6ImFiYy0xMjMifQ==" default
        threeMessages := by
  have hencode : Cursor.encode pagesHost
      ⟨.str "2024-01-01T00:00:00Z", .str "abc-123"⟩ =
      .ok "eyJrIjoiMjAyNC0wMS0wMVQwMDowMDowMFoiLCJpZCI6ImFiYy0xMjMifQ==" := by
    decide +kernel
  have hraised : cursorPosition pagesHost
      (some "eyJrIjoiMjAyNC0wMS0wMVQwMDowMDowMFoiLCJpZCI6ImFiYy0xMjMifQ==") =
      .error (.raised "ValueError") := by decide +kernel
  exact ⟨hencode, hraised, not_answered_of_raised hraised default threeMessages⟩

end Imagin4.Ports
