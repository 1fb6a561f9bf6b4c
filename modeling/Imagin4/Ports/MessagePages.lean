import Imagin4.Verified.Keyset
import Imagin4.Verified.Machine
import Imagin4.Ports.Cursors
import Imagin4.Ports.MessageAppends

/-!
# The pages of a conversation

`list_messages` of `app/api/v1/conversations.py`, for a conversation that the check
of its owner has found, and a client that follows `next_cursor` from the first page
until it is null.  Between two pages anybody may append messages; the client may
change the page size.

## Main results

* `listMessages_at` — one page, at the position behind what the client has.
* `walk_run` — what the client has collected, at any time, and that it ends.
-/

namespace Imagin4.Ports

open Imagin4.Verified

/-! ## One page -/

/-- `MessagePage`. -/
structure MessagePage where
  items : List MessageOut
  nextCursor : Option String

/-- `MAX_PAGE_SIZE`. -/
def maxPageSize : Nat := 100

/-- `limit: int = Query(default=DEFAULT_PAGE_SIZE, le=MAX_PAGE_SIZE, gt=0)`. -/
abbrev PageSize := { n : Nat // 0 < n ∧ n ≤ maxPageSize }

/-- `DEFAULT_PAGE_SIZE`. -/
instance : Inhabited PageSize := ⟨⟨20, by decide⟩⟩

/-- A value that the driver sends as a `BIGINT`. -/
def isBigInt (k : Int) : Bool := -2 ^ 63 ≤ k ∧ k < 2 ^ 63

/-- The key of the listing. -/
def messageKey (u : ChatMessage) : Int := u.sequenceNo

section Pages

variable (host : PageHost) (conversationId : Uuid)

/-- The sort key in a cursor.  An empty cursor counts as none. -/
def cursorPosition (cursor : Option String) : Except RouterError (Option Int) :=
  match cursor with
  | none => .ok none
  | some token =>
      if token = "" then .ok none
      else
        match Cursor.decode host token with
        | .error _ => .error (.http 400 "invalid cursor")
        | .ok decoded =>
            match decoded.sortKey.toInt host.toAdmissionHost with
            | .error e => .error (.raised e)
            | .ok k =>
                if isBigInt k then .ok (some k) else .error (.raised "DBAPIError")

/-- `SELECT … WHERE conversation_id = :id AND sequence_no > :key
ORDER BY sequence_no LIMIT :n`. -/
def selectMessages (position : Option Int) (n : Nat) (messages : List ChatMessage) :
    List ChatMessage :=
  (((ofConversation conversationId messages).filter
    (Keyset.isAfter messageKey position)).insertionSort
      (fun u v => messageKey u ≤ messageKey v)).take n

/-- `next_cursor`. -/
def nextCursor (hasMore : Bool) (rows : List ChatMessage) :
    Except RouterError (Option String) :=
  match hasMore, rows.getLast? with
  | true, some last =>
      match Cursor.encode host ⟨.int last.sequenceNo, .str (uuidText last.id)⟩ with
      | .error e => .error (.raised e)
      | .ok token => .ok (some token)
  | _, _ => .ok none

/-- `list_messages`. -/
def listMessages (cursor : Option String) (limit : PageSize)
    (messages : List ChatMessage) : Except RouterError MessagePage :=
  match cursorPosition host cursor with
  | .error e => .error e
  | .ok position =>
      let rows := selectMessages conversationId position (limit.1 + 1) messages
      let hasMore := decide (limit.1 < rows.length)
      let rows := rows.take limit.1
      match nextCursor host hasMore rows with
      | .error e => .error e
      | .ok next => .ok ⟨rows.map MessageOut.fromModel, next⟩

/-! ## A client -/

/-- Where a client is: about to ask for a page, or done with the last one, or told
of an error. -/
inductive PagePosition where
  | next (cursor : Option String)
  | finished
  | failed (e : RouterError)

/-- `next_cursor` as the client reads it. -/
def PagePosition.ofNext : Option String → PagePosition
  | none => .finished
  | some token => .next (some token)

/-- The messages, and what a client has of one conversation. -/
structure PageWalk where
  messages : List ChatMessage
  collected : List MessageOut
  position : PagePosition

/-- Before the first page. -/
def PageWalk.init (messages : List ChatMessage) : PageWalk :=
  ⟨messages, [], .next none⟩

/-- A page of some size, or a new message. -/
inductive WalkAction where
  | page (limit : PageSize)
  | append (u : ChatMessage)

/-- The client takes a page. -/
def PageWalk.take (w : PageWalk) : Except RouterError MessagePage → PageWalk
  | .error e => { w with position := .failed e }
  | .ok page =>
      { w with
        collected := w.collected ++ page.items
        position := .ofNext page.nextCursor }

/-- A message that may be appended: `sequence_no` is a `BIGINT`, and larger than
those of the conversation. -/
def appendable (messages : List ChatMessage) (u : ChatMessage) : Bool :=
  isBigInt (messageKey u) &&
    (ofConversation u.conversationId messages).all
      (fun v => messageKey v < messageKey u)

/-- The steps. -/
def walkStep (w : PageWalk) : WalkAction → Option PageWalk
  | .page limit =>
      match w.position with
      | .next cursor =>
          some (w.take (listMessages host conversationId cursor limit w.messages))
      | _ => none
  | .append u =>
      if appendable w.messages u then some { w with messages := w.messages ++ [u] }
      else none

/-- A client among those who append. -/
def walks : Machine PageWalk WalkAction where
  step := walkStep host conversationId

/-! ## The cursor of a position -/

/-- A conversation with strictly increasing sequence numbers, each of them a
`BIGINT`. -/
structure InOrder (messages : List ChatMessage) : Prop where
  increasing : Keyset.Increasing messageKey (ofConversation conversationId messages)
  bigInt : ∀ u ∈ ofConversation conversationId messages, isBigInt (messageKey u) = true

variable {host} {conversationId}

theorem length_repr_of_isBigInt {k : Int} (h : isBigInt k = true) :
    k.natAbs.repr.length ≤ maxStrDigits := by
  have hbound : -2 ^ 63 ≤ k ∧ k < 2 ^ 63 := of_decide_eq_true h
  have hlt : k.natAbs < 10 ^ 20 := by omega
  have hlength : k.natAbs.repr.length ≤ 20 :=
    (Nat.length_repr_le_iff (by decide)).mpr hlt
  unfold maxStrDigits
  omega

variable (host) in
/-- The cursor of a message leads behind it. -/
theorem cursorPosition_encode {u : ChatMessage} (h : isBigInt (messageKey u) = true) :
    ∃ token, Cursor.encode host ⟨.int u.sequenceNo, .str (uuidText u.id)⟩ =
        .ok token ∧
      cursorPosition host (some token) = .ok (some (messageKey u)) := by
  obtain ⟨token, hencode, hdecode⟩ :=
    Cursor.decode_encode host (length_repr_of_isBigInt h) (uuidText u.id)
  refine ⟨token, hencode, ?_⟩
  unfold cursorPosition
  dsimp only
  rw [if_neg (Cursor.ne_empty_of_decode host hdecode), hdecode]
  show (if isBigInt (messageKey u) = true then _ else _) = _
  rw [if_pos h]

/-- The rows behind what has been taken, in their order. -/
theorem selectMessages_split {messages taken rest : List ChatMessage}
    (hsplit : ofConversation conversationId messages = taken ++ rest)
    (h : InOrder conversationId messages) (n : Nat) :
    selectMessages conversationId (Keyset.position messageKey taken) n messages =
      rest.take n := by
  have hincreasing := h.increasing
  rw [hsplit] at hincreasing
  have hsorted : rest.Pairwise (fun u v => messageKey u ≤ messageKey v) :=
    ((List.pairwise_append.mp hincreasing).2.1).imp le_of_lt
  unfold selectMessages
  rw [hsplit, Keyset.after_split hincreasing, hsorted.insertionSort_eq]

/-- One page: the cursor that comes with it is that of its last message, and there is
none exactly if nothing is left behind it. -/
theorem listMessages_at {messages taken rest : List ChatMessage}
    (hsplit : ofConversation conversationId messages = taken ++ rest)
    (h : InOrder conversationId messages) {cursor : Option String}
    (hcursor : cursorPosition host cursor = .ok (Keyset.position messageKey taken))
    (limit : PageSize) :
    ∃ next, listMessages host conversationId cursor limit messages =
        .ok ⟨(rest.take limit.1).map MessageOut.fromModel, next⟩ ∧
      ((next = none ∧ rest.length ≤ limit.1) ∨
        ∃ token, next = some token ∧ limit.1 < rest.length ∧
          cursorPosition host (some token) =
            .ok (Keyset.position messageKey (taken ++ rest.take limit.1))) := by
  have hpos : 0 < limit.1 := limit.2.1
  have htake : (rest.take (limit.1 + 1)).take limit.1 = rest.take limit.1 := by
    rw [List.take_take, Nat.min_eq_left (by omega)]
  have hmore : limit.1 < (rest.take (limit.1 + 1)).length ↔ limit.1 < rest.length := by
    rw [List.length_take]
    omega
  unfold listMessages
  rw [hcursor]
  dsimp only
  rw [selectMessages_split hsplit h, htake]
  by_cases hlong : limit.1 < rest.length
  · obtain ⟨last, hlast⟩ : ∃ last, (rest.take limit.1).getLast? = some last := by
      refine Option.ne_none_iff_exists'.mp (fun hnone => ?_)
      have hlength := congrArg List.length (List.getLast?_eq_none_iff.mp hnone)
      rw [List.length_take, List.length_nil] at hlength
      omega
    have hmem : last ∈ ofConversation conversationId messages := by
      rw [hsplit]
      exact List.mem_append_right _
        (List.mem_of_mem_take (List.mem_of_getLast? hlast))
    obtain ⟨token, hencode, hposition⟩ :=
      cursorPosition_encode host (h.bigInt last hmem)
    refine ⟨some token, ?_, Or.inr ⟨token, rfl, hlong, ?_⟩⟩
    · rw [decide_eq_true (hmore.mpr hlong)]
      simp only [nextCursor, hlast, hencode]
    · rw [hposition, Keyset.position, List.getLast?_append, hlast]
      rfl
  · refine ⟨none, ?_, Or.inl ⟨rfl, by omega⟩⟩
    rw [decide_eq_false (fun hlt => hlong (hmore.mp hlt))]
    rfl

/-! ## The invariant of a walk -/

variable (host) (conversationId)

/-- What the position of a client says: the cursor leads behind what is taken, and at
the end nothing of the start is missing. -/
def Stands (start taken : List ChatMessage) : PagePosition → Prop
  | .next cursor =>
      cursorPosition host cursor = .ok (Keyset.position messageKey taken)
  | .finished => start <+: taken
  | .failed _ => False

/-- What a walk keeps.  The client has the messages `taken`, and `rest` is behind
its cursor. -/
structure Walked (start taken rest : List ChatMessage) (w : PageWalk) : Prop where
  split : ofConversation conversationId w.messages = taken ++ rest
  inOrder : InOrder conversationId w.messages
  started : start <+: taken ++ rest
  collected : w.collected = taken.map MessageOut.fromModel
  stands : Stands host start taken w.position

variable {host} {conversationId}

theorem walked_init {messages : List ChatMessage} (h : InOrder conversationId messages) :
    Walked host conversationId (ofConversation conversationId messages) []
      (ofConversation conversationId messages) (.init messages) where
  split := rfl
  inOrder := h
  started := List.prefix_rfl
  collected := rfl
  stands := rfl

/-- A page goes from the rest to what is taken. -/
theorem walked_page {start taken rest : List ChatMessage} {w : PageWalk}
    (h : Walked host conversationId start taken rest w) {cursor : Option String}
    (hposition : w.position = .next cursor) (limit : PageSize) :
    ∃ t, walkStep host conversationId w (.page limit) = some t ∧
      Walked host conversationId start (taken ++ rest.take limit.1)
        (rest.drop limit.1) t ∧
      (t.position = .finished ∨
        limit.1 < rest.length ∧ ∃ cursor, t.position = .next cursor) := by
  have hcursor : Stands host start taken w.position := h.stands
  rw [hposition] at hcursor
  obtain ⟨next, hpage, hnext⟩ := listMessages_at h.split h.inOrder hcursor limit
  have hsplit : (taken ++ rest.take limit.1) ++ rest.drop limit.1 = taken ++ rest := by
    rw [List.append_assoc, List.take_append_drop]
  have hcollected : w.collected ++ (rest.take limit.1).map MessageOut.fromModel =
      (taken ++ rest.take limit.1).map MessageOut.fromModel := by
    rw [h.collected, List.map_append]
  have hstands : Stands host start (taken ++ rest.take limit.1) (.ofNext next) := by
    rcases hnext with ⟨rfl, hle⟩ | ⟨token, rfl, _, hnext⟩
    · show start <+: taken ++ rest.take limit.1
      rw [List.take_of_length_le hle]
      exact h.started
    · exact hnext
  refine ⟨w.take (.ok ⟨(rest.take limit.1).map MessageOut.fromModel, next⟩), ?_, ?_,
    ?_⟩
  · unfold walkStep
    rw [hposition]
    dsimp only
    rw [hpage]
  · exact ⟨h.split.trans hsplit.symm, h.inOrder, hsplit.symm ▸ h.started, hcollected,
      hstands⟩
  · rcases hnext with ⟨rfl, _⟩ | ⟨token, rfl, hlong, _⟩
    · exact Or.inl rfl
    · exact Or.inr ⟨hlong, some token, rfl⟩

/-- A new message of the conversation joins its rest. -/
theorem walked_append {start taken rest : List ChatMessage} {w t : PageWalk}
    (h : Walked host conversationId start taken rest w) {u : ChatMessage}
    (hstep : walkStep host conversationId w (.append u) = some t) :
    ∃ rest', rest <+: rest' ∧ Walked host conversationId start taken rest' t := by
  simp only [walkStep] at hstep
  by_cases happend : appendable w.messages u = true
  · rw [if_pos happend] at hstep
    obtain rfl := Option.some.inj hstep
    unfold appendable at happend
    rw [Bool.and_eq_true, List.all_eq_true] at happend
    by_cases hid : u.conversationId = conversationId
    · have hof : ofConversation conversationId (w.messages ++ [u]) =
          ofConversation conversationId w.messages ++ [u] := by
        simp [ofConversation, hid]
      have hlarger : ∀ v ∈ ofConversation conversationId w.messages,
          messageKey v < messageKey u := by
        intro v hv
        rw [← hid] at hv
        exact of_decide_eq_true (happend.2 v hv)
      have hinOrder : InOrder conversationId (w.messages ++ [u]) := by
        refine ⟨?_, ?_⟩
        · rw [hof]
          exact Keyset.increasing_append h.inOrder.increasing hlarger
        · intro v hv
          rw [hof] at hv
          rcases List.mem_append.mp hv with hv | hv
          · exact h.inOrder.bigInt v hv
          · rw [List.mem_singleton.mp hv]
            exact happend.1
      have hstarted : start <+: taken ++ (rest ++ [u]) := by
        rw [← List.append_assoc]
        exact h.started.trans (List.prefix_append _ _)
      have hsplit : ofConversation conversationId (w.messages ++ [u]) =
          taken ++ (rest ++ [u]) := by
        rw [hof, h.split, List.append_assoc]
      exact ⟨rest ++ [u], List.prefix_append _ _, hsplit, hinOrder, hstarted,
        h.collected, h.stands⟩
    · have hof : ofConversation conversationId (w.messages ++ [u]) =
          ofConversation conversationId w.messages := by
        simp [ofConversation, hid]
      exact ⟨rest, List.prefix_rfl, hof.trans h.split,
        ⟨hof.symm ▸ h.inOrder.increasing, hof.symm ▸ h.inOrder.bigInt⟩, h.started,
        h.collected, h.stands⟩
  · rw [if_neg happend] at hstep
    cases hstep

/-- The step lemma. -/
theorem walked_step {start : List ChatMessage} {w t : PageWalk} {a : WalkAction}
    (h : ∃ taken rest, Walked host conversationId start taken rest w)
    (hstep : (walks host conversationId).step w a = some t) :
    ∃ taken rest, Walked host conversationId start taken rest t := by
  obtain ⟨taken, rest, h⟩ := h
  have hstep : walkStep host conversationId w a = some t := hstep
  cases a with
  | page limit =>
      cases hposition : w.position with
      | next cursor =>
          obtain ⟨t', ht', hwalked, _⟩ := walked_page h hposition limit
          obtain rfl : t' = t := Option.some.inj (ht'.symm.trans hstep)
          exact ⟨_, _, hwalked⟩
      | finished =>
          simp only [walkStep, hposition] at hstep
          cases hstep
      | failed e =>
          simp only [walkStep, hposition] at hstep
          cases hstep
  | append u =>
      obtain ⟨rest', _, hwalked⟩ := walked_append h hstep
      exact ⟨taken, rest', hwalked⟩

/-- The run lemma. -/
theorem walked_run {messages : List ChatMessage} (h : InOrder conversationId messages)
    {as : List WalkAction} {w : PageWalk}
    (hrun : (walks host conversationId).exec (.init messages) as = some w) :
    ∃ taken rest,
      Walked host conversationId (ofConversation conversationId messages) taken rest
        w :=
  Machine.invariant (C := fun _ _ => True) (fun _ _ _ hw _ hs => walked_step hw hs)
    ⟨_, _, walked_init h⟩ (Machine.along_of_split hrun (fun _ _ _ _ _ _ => trivial))
    hrun

/-- Pages alone come to an end, after one more than there are messages left. -/
theorem finishes {start : List ChatMessage} (sizes : List PageSize) :
    ∀ {taken rest : List ChatMessage} {w : PageWalk} {cursor : Option String},
      Walked host conversationId start taken rest w → w.position = .next cursor →
      rest.length < sizes.length →
      ∃ n t, (walks host conversationId).exec w ((sizes.take n).map .page) = some t ∧
        t.position = .finished := by
  induction sizes with
  | nil =>
      intro _ rest _ _ _ _ hlength
      cases hlength
  | cons limit sizes ih =>
      intro taken rest w cursor h hposition hlength
      have hpos : 0 < limit.1 := limit.2.1
      obtain ⟨r, hr, hwalked, hnext⟩ := walked_page h hposition limit
      rcases hnext with hfinished | ⟨hlong, cursor', hcursor'⟩
      · refine ⟨1, r, ?_, hfinished⟩
        exact (Machine.exec_cons_eq_some _).mpr ⟨r, hr, rfl⟩
      · have hshort : (rest.drop limit.1).length < sizes.length := by
          rw [List.length_drop]
          rw [List.length_cons] at hlength
          omega
        obtain ⟨n, t, ht, hfinished⟩ := ih hwalked hcursor' hshort
        refine ⟨n + 1, t, ?_, hfinished⟩
        exact (Machine.exec_cons_eq_some _).mpr ⟨r, hr, ht⟩

end Pages

/-- A client that follows `next_cursor` through a conversation with strictly
increasing sequence numbers, with pages of any sizes and appends of larger numbers in
between, is never told of an error, has at any time a prefix of the conversation, and
has at the end all that was there at the start and a prefix of what has come since.
Pages without appends lead to the end.  It rests on the round trip of the cursors. -/
theorem walk_run (host : PageHost) (conversationId : Uuid)
    (messages : List ChatMessage) (h : InOrder conversationId messages) :
    (∀ (as : List WalkAction) (w : PageWalk),
      (walks host conversationId).exec (.init messages) as = some w →
      ∃ later n,
        ofConversation conversationId w.messages =
          ofConversation conversationId messages ++ later ∧
        (∀ e, w.position ≠ .failed e) ∧
        w.collected <+:
          (ofConversation conversationId w.messages).map MessageOut.fromModel ∧
        (w.position = .finished → w.collected =
          (ofConversation conversationId messages ++ later.take n).map
            MessageOut.fromModel) ∧
        ∀ (sizes : List PageSize) (cursor : Option String),
          w.position = .next cursor →
          (ofConversation conversationId w.messages).length < sizes.length →
          ∃ k t, (walks host conversationId).exec w ((sizes.take k).map .page) =
            some t ∧ t.position = .finished) ∧
    ∀ (k : Int) (id : String), k.natAbs.repr.length ≤ maxStrDigits →
      ∃ token, Cursor.encode host ⟨.int k, .str id⟩ = .ok token ∧
        Cursor.decode host token = .ok ⟨.int k, .str id⟩ := by
  refine ⟨?_, fun k id hk => Cursor.decode_encode host hk id⟩
  intro as w hrun
  obtain ⟨taken, rest, hw⟩ := walked_run h hrun
  obtain ⟨later, hlater⟩ := hw.started
  have hstands := hw.stands
  refine ⟨later, taken.length - (ofConversation conversationId messages).length,
    hw.split.trans hlater.symm, ?_, ?_, ?_, ?_⟩
  · intro e hfailed
    rw [hfailed] at hstands
    exact hstands
  · rw [hw.collected, hw.split, List.map_append]
    exact List.prefix_append _ _
  · intro hfinished
    rw [hfinished] at hstands
    obtain ⟨mid, rfl⟩ := hstands
    rw [List.append_assoc] at hlater
    have hmid : later = mid ++ rest := List.append_cancel_left hlater
    rw [hw.collected, hmid, List.length_append, Nat.add_sub_cancel_left,
      List.take_left]
  · intro sizes cursor hposition hlength
    refine finishes sizes hw hposition ?_
    rw [hw.split, List.length_append] at hlength
    omega

/-! ## A walk through three messages -/

/-- A host of plain numbers and strings. -/
def pagesHost : PageHost :=
  { plainHost with wideText := fun _ _ => none, nesting := 900, nesting_pos := by decide }

/-- A message of a conversation. -/
def messageAt (conversationId sequenceNo : Nat) : ChatMessage where
  id := sequenceNo
  conversationId := conversationId
  role := "user"
  sequenceNo := sequenceNo
  clientMessageId := none
  content := Dict.empty
  status := "complete"
  createdAt := 0

/-- Three messages, and one of another conversation. -/
def threeMessages : List ChatMessage :=
  [messageAt 1 1, messageAt 1 2, messageAt 2 1, messageAt 1 5]

/-- A page of one message, two new messages, and a page of a hundred. -/
def growingWalk : List WalkAction :=
  [.page ⟨1, by decide⟩, .append (messageAt 1 6), .append (messageAt 2 2),
    .page ⟨100, by decide⟩]

/-- What the client has at the end of a run. -/
def collectedAfter (as : List WalkAction) : Option (List Nat) :=
  ((walks pagesHost 1).exec (.init threeMessages) as).map (fun w =>
    w.collected.map MessageOut.sequenceNo)

theorem walk_run_growing :
    ∃ w, (walks pagesHost 1).exec (.init threeMessages) growingWalk = some w ∧
      w.collected.map MessageOut.sequenceNo = [1, 2, 5, 6] ∧
      w.collected <+: (ofConversation 1 w.messages).map MessageOut.fromModel := by
  have hcollected : collectedAfter growingWalk = some [1, 2, 5, 6] := by
    decide +kernel
  have horder : InOrder 1 threeMessages := by
    refine ⟨?_, ?_⟩
    · unfold Keyset.Increasing
      decide
    · decide
  obtain ⟨w, hw, heq⟩ := Option.map_eq_some_iff.mp hcollected
  obtain ⟨_, _, _, _, hprefix, _⟩ :=
    (walk_run pagesHost 1 threeMessages horder).1 growingWalk w hw
  exact ⟨w, hw, heq, hprefix⟩

theorem lt_length_repr_pow (n : Nat) (hn : 0 < n) :
    n < ((10 : Int) ^ n).natAbs.repr.length := by
  have hnat : ((10 : Int) ^ n).natAbs = 10 ^ n := Int.natAbs_pow 10 n
  rw [hnat, ← Nat.not_le, Nat.length_repr_le_iff hn]
  exact Nat.lt_irrefl _

/-- An integer of 4301 digits has no cursor: `json.dumps` raises. -/
theorem cursor_tooLong :
    Cursor.encode pagesHost ⟨.int (10 ^ maxStrDigits), .str "a"⟩ =
        .error "ValueError" ∧
      ¬ ∃ token, Cursor.encode pagesHost ⟨.int (10 ^ maxStrDigits), .str "a"⟩ =
        .ok token ∧
      Cursor.decode pagesHost token = .ok ⟨.int (10 ^ maxStrDigits), .str "a"⟩ := by
  have herror := Cursor.encode_error pagesHost
    (lt_length_repr_pow maxStrDigits (by decide)) (.str "a")
  refine ⟨herror, ?_⟩
  rintro ⟨token, hencode, _⟩
  rw [herror] at hencode
  cases hencode

end Imagin4.Ports
