import Imagin4.Verified.Noninterference
import Imagin4.Ports.AgentThreads
import Imagin4.Ports.MessagePages

/-!
# The conversations of a user

The endpoints of `app/api/v1/conversations.py`, one request after another, by whatever
users.  Every query is by the id of a conversation; what keeps users apart is
`_get_owned_conversation`, and that ids are drawn at random.

## Main results

* `unwinding_conversations` — a request sees and changes only what its user owns.
* `users_apart` — the answers a user gets are those of a server of their own.
-/

namespace Imagin4.Ports

open Imagin4.Verified

/-! ## Rows -/

/-- A row of `conversations`, with its times. -/
structure ConversationRow extends Conversation where
  createdAt : DateTime
  updatedAt : DateTime

/-- `conv.updated_at = now`. -/
def ConversationRow.touch (now : DateTime) (c : ConversationRow) : ConversationRow :=
  { c with updatedAt := now }

/-- `conv.deleted_at = now`; the column `updated_at` follows every `UPDATE`. -/
def ConversationRow.delete (now : DateTime) (c : ConversationRow) : ConversationRow :=
  { c with toConversation := c.markDeleted now, updatedAt := now }

/-- The id of a row. -/
def ConversationRow.key (c : ConversationRow) : Uuid := c.id

namespace ConversationRow

variable (now : DateTime) (c : ConversationRow)

@[simp] theorem key_touch : (c.touch now).key = c.key := rfl

@[simp] theorem userId_touch : (c.touch now).userId = c.userId := rfl

@[simp] theorem key_delete : (c.delete now).key = c.key := rfl

@[simp] theorem userId_delete : (c.delete now).userId = c.userId := rfl

end ConversationRow

/-- The two tables. -/
structure ConversationStore where
  conversations : Table ConversationRow.key
  messages : List ChatMessage

/-- No rows. -/
def ConversationStore.empty : ConversationStore := ⟨Table.empty, []⟩

/-- `ConversationOut`. -/
structure ConversationOut where
  id : Uuid
  title : String
  status : String
  createdAt : DateTime
  updatedAt : DateTime
deriving DecidableEq

/-- `ConversationOut.from_model`. -/
def ConversationOut.fromModel (c : ConversationRow) : ConversationOut where
  id := c.id
  title := c.title
  status := c.status
  createdAt := c.createdAt
  updatedAt := c.updatedAt

/-! ## Endpoints -/

/-- The requests; a path id that is no UUID is `none`, and the ids of new rows are
drawn by the caller. -/
inductive ConversationCall where
  | createConversation (title : Option String) (id : Uuid)
  | listConversations
  | getConversation (conversationId : Option Uuid)
  | deleteConversation (conversationId : Option Uuid)
  | listMessages (conversationId : Option Uuid) (cursor : Option String)
      (limit : PageSize)
  | createMessage (conversationId : Option Uuid) (role : String) (content : Dict)
      (clientMessageId : Option String) (id : Uuid)
  | createAssistantReply (conversationId : Option Uuid)
      (gemini : Option (List Turn → Except ModelError String)) (id : Uuid)

/-- A request of an authenticated user. -/
structure ConversationRequest where
  userId : Uuid
  call : ConversationCall
  now : DateTime

/-- What an endpoint answers. -/
inductive ConversationAnswer where
  | conversation (c : ConversationOut)
  | conversations (cs : List ConversationOut)
  | noContent
  | page (p : MessagePage)
  | message (m : MessageOut)

/-- An endpoint: the tables after a request, and the answer to it. -/
abbrev Served := ConversationStore × Except RouterError ConversationAnswer

/-- `_ALLOWED_ROLES`. -/
def allowedRoles : List String := ["user", "assistant", "system", "tool"]

/-- `_get_owned_conversation`. -/
def ownedConversation (conversation : Option ConversationRow) (userId : Uuid) :
    Except RouterError ConversationRow :=
  match conversation with
  | none => .error (.http 404 "not found")
  | some c =>
      if c.deletedAt.isSome then .error (.http 404 "not found")
      else if c.userId ≠ userId then .error (.http 404 "not found")
      else .ok c

section Endpoints

variable (host : PageHost) (store : Dict → Option Dict) (d : ConversationStore)

/-- The conversation under an id. -/
def ConversationStore.find (conversationId : Option Uuid) : Option ConversationRow :=
  conversationId.bind d.conversations.find?

/-- `UPDATE conversations SET … WHERE id = :id`. -/
def ConversationStore.rewrite (id : Uuid) (f : ConversationRow → ConversationRow)
    (hf : ∀ c, (f c).key = c.key) : ConversationStore :=
  { d with conversations := d.conversations.modify id f hf }

/-- `create_conversation`. -/
def createConversation (userId : Uuid) (title : Option String) (id : Uuid)
    (now : DateTime) : Served :=
  let c : ConversationRow := { newConversation id userId title with
    createdAt := now, updatedAt := now }
  match d.conversations.find? id with
  | some _ => (d, .error (.raised "IntegrityError"))
  | none => ({ d with conversations := d.conversations.put c },
      .ok (.conversation (.fromModel c)))

/-- `list_conversations`: the latest first. -/
def listConversations (userId : Uuid) : List ConversationOut :=
  ((d.conversations.rows.filter (fun c => c.userId = userId && c.deletedAt.isNone)).insertionSort
    (fun c c' => c'.updatedAt ≤ c.updatedAt)).map .fromModel

/-- The tables with these messages; a new one comes with a new `updated_at`. -/
def ConversationStore.commitMessages (conversationId : Uuid) (now : DateTime)
    (messages : List ChatMessage) : ConversationStore :=
  if d.messages.length < messages.length then
    ⟨d.conversations.modify conversationId (.touch now) (ConversationRow.key_touch now), messages⟩
  else ⟨d.conversations, messages⟩

/-- `_append_message`. -/
def appendAndTouch (new : NewMessage) (now : DateTime) : Served :=
  let r := appendMessage store new d.messages
  (d.commitMessages new.conversationId now r.2,
    r.1.map (fun u => .message (.fromModel u)))

/-- The answer to an exception of the completion. -/
def completionFailed : ModelError → RouterError
  | .runtimeError code =>
      if code ∈ overloadReasons then .http 503 code
      else .http 502 "chat_completion_failed"
  | .routeDecisionError | .exception _ => .http 502 "chat_completion_failed"
  | .baseException name => .raised name

/-- `create_assistant_reply`, for the conversation it is about. -/
def replyTo (c : ConversationRow) (complete : List Turn → Except ModelError String)
    (id : Uuid) (now : DateTime) : Served :=
  let history := loadHistory host.toAdmissionHost c.id d.messages
  if history.isEmpty then
    (d, .error (.http 400 "conversation has no messages to reply to"))
  else
    match complete history with
    | .error e => (d, .error (completionFailed e))
    | .ok text => appendAndTouch store d
        ⟨id, c.id, "assistant", Dict.empty.set "text" (.str text) (.str text), none, now⟩ now

/-- Does something with the conversation that the user owns. -/
def withOwned (userId : Uuid) (conversationId : Option Uuid)
    (next : ConversationRow → Served) : Served :=
  match ownedConversation (d.find conversationId) userId with
  | .error e => (d, .error e)
  | .ok c => next c

/-- What a request does. -/
def serveConversation (r : ConversationRequest) : Served :=
  match r.call with
  | .createConversation title id => createConversation d r.userId title id r.now
  | .listConversations => (d, .ok (.conversations (listConversations d r.userId)))
  | .getConversation conversationId =>
      withOwned d r.userId conversationId (fun c =>
        (d, .ok (.conversation (.fromModel c))))
  | .deleteConversation conversationId =>
      withOwned d r.userId conversationId (fun c =>
        (d.rewrite c.id (.delete r.now) (ConversationRow.key_delete r.now), .ok .noContent))
  | .listMessages conversationId cursor limit =>
      withOwned d r.userId conversationId (fun c =>
        (d, (listMessages host c.id cursor limit d.messages).map .page))
  | .createMessage conversationId role content clientMessageId id =>
      if role ∉ allowedRoles then (d, .error (.http 400 "invalid role"))
      else
        withOwned d r.userId conversationId (fun c =>
          appendAndTouch store d ⟨id, c.id, role, content, clientMessageId, r.now⟩ r.now)
  | .createAssistantReply conversationId gemini id =>
      match gemini with
      | none => (d, .error (.http 503
          "chat completion is not configured (APP_GEMINI_API_KEY unset)"))
      | some complete =>
          withOwned d r.userId conversationId (fun c =>
            replyTo host store d c complete id r.now)

end Endpoints

/-- The endpoints. -/
def conversationApi (host : PageHost) (store : Dict → Option Dict) :
    Server ConversationStore ConversationRequest (Except RouterError ConversationAnswer) where
  serve r d := serveConversation host store d r

/-! ## What concerns a user -/

/-- The row is of this user. -/
def isOf (userId : Uuid) (c : ConversationRow) : Bool := decide (c.userId = userId)

/-- The message is in a conversation of this user. -/
def concerns (userId : Uuid) (d : ConversationStore) (m : ChatMessage) : Bool :=
  (d.conversations.find? m.conversationId).any (isOf userId)

/-- The rows of a user. -/
def ConversationStore.ofUser (userId : Uuid) (d : ConversationStore) : ConversationStore :=
  ⟨d.conversations.restrict (isOf userId), d.messages.filter (concerns userId d)⟩

/-- Messages are in conversations. -/
def Linked (d : ConversationStore) : Prop :=
  ∀ m ∈ d.messages, (d.conversations.find? m.conversationId).isSome = true

/-- The ids that are drawn are new. -/
def freshIds (d : ConversationStore) (r : ConversationRequest) : Bool :=
  match r.call with
  | .createConversation _ id => (d.conversations.find? id).isNone
  | .createMessage _ _ _ _ id | .createAssistantReply _ _ id =>
      d.messages.all (fun m => decide (m.id ≠ id))
  | _ => true

section Concerns

variable {d : ConversationStore} {userId : Uuid} {conversationId : Option Uuid}
  {c : ConversationRow}

theorem find_of_owned {conversation : Option ConversationRow}
    (h : ownedConversation conversation userId = .ok c) :
    conversation = some c ∧ c.userId = userId := by
  unfold ownedConversation at h
  split at h
  · cases h
  · split at h
    · cases h
    · split at h
      · cases h
      · rename_i howner
        cases h
        exact ⟨rfl, not_not.mp howner⟩

theorem row_of_owned (h : ownedConversation (d.find conversationId) userId = .ok c) :
    d.conversations.find? c.id = some c ∧ c.userId = userId := by
  obtain ⟨hfind, howner⟩ := find_of_owned h
  refine ⟨?_, howner⟩
  obtain ⟨id, _, hrow⟩ := Option.bind_eq_some_iff.mp hfind
  have hid : c.id = id := (Table.key_of_find? hrow : c.key = id)
  rw [hid]
  exact hrow

/-- The owner finds the same. -/
theorem owned_ofUser (d : ConversationStore) (userId : Uuid) (conversationId : Option Uuid) :
    ownedConversation ((d.ofUser userId).find conversationId) userId =
      ownedConversation (d.find conversationId) userId := by
  cases conversationId with
  | none => rfl
  | some id =>
      show ownedConversation ((d.conversations.restrict (isOf userId)).find? id) userId =
        ownedConversation (d.conversations.find? id) userId
      rw [Table.find?_restrict]
      cases d.conversations.find? id with
      | none => rfl
      | some c =>
          by_cases howner : c.userId = userId
          · rw [Option.filter_some_pos (p := isOf userId) (decide_eq_true howner)]
          · rw [Option.filter_some_neg (by simp [isOf, howner])]
            unfold ownedConversation
            dsimp only
            rw [if_pos howner]
            split <;> rfl

/-- What is in a conversation concerns its owner, … -/
theorem concerns_iff (hrow : d.conversations.find? c.id = some c) {m : ChatMessage}
    (hm : m.conversationId = c.id) :
    concerns userId d m = isOf userId c := by
  unfold concerns
  rw [hm, hrow]
  rfl

/-- … who therefore sees all of it. -/
theorem ofConversation_ofUser (hrow : d.conversations.find? c.id = some c)
    (howner : c.userId = userId) :
    ofConversation c.id (d.ofUser userId).messages = ofConversation c.id d.messages := by
  unfold ofConversation ConversationStore.ofUser
  dsimp only
  rw [List.filter_filter]
  refine List.filter_congr (fun m _ => ?_)
  by_cases hm : m.conversationId = c.id
  · rw [concerns_iff hrow hm]
    simp [isOf, howner]
  · simp [hm]

end Concerns

/-! ## Changes -/

section Changes

variable {d : ConversationStore} {userId : Uuid} {id : Uuid}
  {f : ConversationRow → ConversationRow} {hf : ∀ c, (f c).key = c.key}

theorem any_find?_modify (hf : ∀ c, (f c).key = c.key) (hu : ∀ c, (f c).userId = c.userId) (k : Uuid) :
    ((d.conversations.modify id f hf).find? k).any (isOf userId) =
      (d.conversations.find? k).any (isOf userId) := by
  rw [Table.find?_modify]
  split
  · cases d.conversations.find? k with
    | none => rfl
    | some c =>
        show isOf userId (f c) = isOf userId c
        unfold isOf
        rw [hu]
  · rfl

/-- Rewriting a conversation, as its user sees it. -/
theorem ofUser_rewrite (hu : ∀ c, (f c).userId = c.userId) :
    (d.rewrite id f hf).ofUser userId = (d.ofUser userId).rewrite id f hf := by
  have htable : (d.conversations.modify id f hf).restrict (isOf userId) =
      (d.conversations.restrict (isOf userId)).modify id f hf :=
    Table.restrict_modify (fun c => by unfold isOf; rw [hu])
  have hmessages : d.messages.filter (concerns userId (d.rewrite id f hf)) =
      d.messages.filter (concerns userId d) :=
    List.filter_congr (fun m _ => any_find?_modify hf hu m.conversationId)
  unfold ConversationStore.ofUser ConversationStore.rewrite
  dsimp only
  rw [htable]
  exact congrArg _ hmessages

/-- Nobody else sees it. -/
theorem ofUser_rewrite_of_not {c : ConversationRow} (hu : ∀ c, (f c).userId = c.userId)
    (hrow : d.conversations.find? id = some c) (howner : c.userId ≠ userId) :
    (d.rewrite id f hf).ofUser userId = d.ofUser userId := by
  rw [ofUser_rewrite hu]
  have hnone : (d.conversations.restrict (isOf userId)).find? id = none := by
    rw [Table.find?_restrict, hrow]
    exact Option.filter_some_neg (by simp [isOf, howner])
  unfold ConversationStore.rewrite ConversationStore.ofUser
  dsimp only
  rw [Table.modify_of_find?_none hnone]

theorem Linked.rewrite (h : Linked d) : Linked (d.rewrite id f hf) := by
  intro m hm
  show ((d.conversations.modify id f hf).find? m.conversationId).isSome = true
  rw [Table.find?_modify]
  have hsome := h m hm
  split
  · rw [Option.isSome_map]
    exact hsome
  · exact hsome

end Changes

/-! ## Appending -/

section Appending

variable {store : Dict → Option Dict} {new : NewMessage} {messages : List ChatMessage}
  {p : ChatMessage → Bool}

/-- A call of `_append_message` depends on the messages of its conversation. -/
theorem appendMessage_filter
    (hp : ∀ m, m.conversationId = new.conversationId → p m = true)
    (hfresh : ∀ m ∈ messages, m.id ≠ new.id) :
    appendMessage store new (messages.filter p) =
      ((appendMessage store new messages).1,
        (appendMessage store new messages).2.filter p) := by
  have hreplayed : replayed new (messages.filter p) = replayed new messages := by
    unfold replayed messageOf
    cases new.clientMessageId with
    | none => rfl
    | some clientMessageId =>
        dsimp only
        split
        · rfl
        · rw [List.find?_filter]
          refine congrArg (List.find? · messages) (funext (fun m => ?_))
          by_cases hm : m.conversationId = new.conversationId
          · simp [hp m hm]
          · simp [hm]
  have hrow : ∀ content, new.row content (messages.filter p) = new.row content messages := by
    intro content
    have hsame : (messages.filter p).filter
        (fun m => m.conversationId = new.conversationId) =
          messages.filter (fun m => m.conversationId = new.conversationId) := by
      rw [List.filter_filter]
      refine List.filter_congr (fun m _ => ?_)
      by_cases hm : m.conversationId = new.conversationId
      · simp [hp m hm]
      · simp [hm]
    unfold NewMessage.row
    rw [hsame]
  have hconflicts : ∀ content, (messages.filter p).any (new.row content messages).conflicts =
      messages.any (new.row content messages).conflicts := by
    intro content
    rw [List.any_filter]
    refine Bool.eq_iff_iff.mpr ?_
    simp only [List.any_eq_true, Bool.and_eq_true]
    refine ⟨fun ⟨m, hm, hand⟩ => ⟨m, hm, hand.2⟩, fun ⟨m, hm, hconflict⟩ =>
      ⟨m, hm, hp m ?_, hconflict⟩⟩
    have hid : ¬ (new.row content messages).id = m.id := Ne.symm (hfresh m hm)
    simp only [ChatMessage.conflicts, hid, decide_false, Bool.false_or, Bool.or_eq_true,
      Bool.and_eq_true, decide_eq_true_eq] at hconflict
    rcases hconflict with hsequence | hclient
    · exact hsequence.1.symm
    · exact hclient.1.1.symm
  unfold appendMessage
  rw [hreplayed]
  cases hold : replayed new messages with
  | some existing => rfl
  | none =>
      unfold insertMessage
      cases store new.content with
      | none => rfl
      | some content =>
          dsimp only
          rw [hrow, hconflicts, hreplayed, hold]
          split
          · rfl
          · have hkept : p (new.row content messages) = true := hp _ rfl
            rw [List.filter_append, List.filter_cons_of_pos hkept, List.filter_nil]

variable {d : ConversationStore} {userId : Uuid} {c : ConversationRow} {now : DateTime}

theorem commitMessages_same (id : Uuid) : d.commitMessages id now d.messages = d :=
  if_neg (Nat.lt_irrefl _)

theorem commitMessages_append (id : Uuid) (u : ChatMessage) :
    d.commitMessages id now (d.messages ++ [u]) =
      ({ d with messages := d.messages ++ [u] } : ConversationStore).rewrite id
        (.touch now) (ConversationRow.key_touch now) :=
  if_pos (by simp)

/-- A message of a conversation, as a user sees it. -/
theorem ofUser_append {u : ChatMessage} :
    ({ d with messages := d.messages ++ [u] } : ConversationStore).ofUser userId =
      { d.ofUser userId with
        messages := (d.ofUser userId).messages ++ [u].filter (concerns userId d) } := by
  show ConversationStore.mk _ ((d.messages ++ [u]).filter (concerns userId d)) = _
  rw [List.filter_append]
  rfl

/-- The owner of the conversation appends. -/
theorem appendAndTouch_own (hrow : d.conversations.find? c.id = some c)
    (howner : c.userId = userId) (hnew : new.conversationId = c.id)
    (hfresh : ∀ m ∈ d.messages, m.id ≠ new.id) :
    appendAndTouch store (d.ofUser userId) new now =
      ((appendAndTouch store d new now).1.ofUser userId,
        (appendAndTouch store d new now).2) := by
  have hp : ∀ m, m.conversationId = new.conversationId → concerns userId d m = true :=
    fun m hm => (concerns_iff hrow (hm.trans hnew)).trans (decide_eq_true howner)
  have hfilter : appendMessage store new (d.ofUser userId).messages = _ :=
    appendMessage_filter hp hfresh
  unfold appendAndTouch
  dsimp only
  rw [hfilter]
  refine congrArg (·, _) ?_
  rcases appendMessage_cases store new d.messages with ⟨hsame, _⟩ | ⟨content, happend, _⟩
  · rw [hsame, commitMessages_same]
    exact commitMessages_same _
  · have hkept : concerns userId d (new.row content d.messages) = true := hp _ rfl
    rw [happend, commitMessages_append, ofUser_rewrite (ConversationRow.userId_touch now),
      ofUser_append]
    dsimp only
    rw [List.filter_append, List.filter_cons_of_pos hkept, List.filter_nil]
    exact commitMessages_append _ _

/-- Somebody else does. -/
theorem appendAndTouch_other (hrow : d.conversations.find? c.id = some c)
    (howner : c.userId ≠ userId) (hnew : new.conversationId = c.id) :
    (appendAndTouch store d new now).1.ofUser userId = d.ofUser userId := by
  unfold appendAndTouch
  dsimp only
  rcases appendMessage_cases store new d.messages with ⟨hsame, _⟩ | ⟨content, happend, _⟩
  · rw [hsame, commitMessages_same]
  · have hhidden : concerns userId d (new.row content d.messages) = false :=
      (concerns_iff hrow hnew).trans (decide_eq_false howner)
    rw [happend, commitMessages_append, hnew]
    refine (ofUser_rewrite_of_not (c := c) (ConversationRow.userId_touch now) ?_
      howner).trans ?_
    · exact hrow
    · rw [ofUser_append, List.filter_cons_of_neg (by simp [hhidden]), List.filter_nil,
        List.append_nil]

theorem Linked.appendAndTouch (h : Linked d) (hrow : d.conversations.find? c.id = some c)
    (hnew : new.conversationId = c.id) : Linked (appendAndTouch store d new now).1 := by
  unfold Ports.appendAndTouch
  dsimp only
  rcases appendMessage_cases store new d.messages with ⟨hsame, _⟩ | ⟨content, happend, _⟩
  · rw [hsame, commitMessages_same]
    exact h
  · rw [happend, commitMessages_append]
    refine Linked.rewrite (fun m hm => ?_)
    rcases List.mem_append.mp hm with hold | hlast
    · exact h m hold
    · obtain rfl := List.mem_singleton.mp hlast
      show (d.conversations.find? new.conversationId).isSome = true
      rw [hnew, hrow]
      rfl

end Appending

/-! ## Requests -/

section Requests

variable {host : PageHost} {store : Dict → Option Dict} {d : ConversationStore}
  {userId : Uuid}

theorem linked_create (h : Linked d) (c : ConversationRow) :
    Linked { d with conversations := d.conversations.put c } := by
  intro m hm
  show ((d.conversations.put c).find? m.conversationId).isSome = true
  rw [Table.find?_put]
  split
  · rfl
  · exact h m hm

/-- A new conversation is its user's. -/
theorem ofUser_create (h : Linked d) {c : ConversationRow}
    (hfresh : d.conversations.find? c.id = none) :
    ({ d with conversations := d.conversations.put c } : ConversationStore).ofUser userId =
      if isOf userId c then
        { d.ofUser userId with conversations := (d.ofUser userId).conversations.put c }
      else d.ofUser userId := by
  have hmessages : d.messages.filter
      (concerns userId { d with conversations := d.conversations.put c }) =
        d.messages.filter (concerns userId d) := by
    refine List.filter_congr (fun m hm => ?_)
    have hne : m.conversationId ≠ c.key := by
      intro heq
      have hsome := h m hm
      rw [heq, show d.conversations.find? c.key = none from hfresh] at hsome
      cases hsome
    unfold concerns
    dsimp only
    rw [Table.find?_put, if_neg hne]
  unfold ConversationStore.ofUser
  dsimp only
  rw [hmessages, Table.restrict_put hfresh]
  split <;> rfl

/-- What the owner of a conversation does with it. -/
theorem withOwned_own {conversationId : Option Uuid}
    {next next' : ConversationRow → Served}
    (h : ∀ c, d.conversations.find? c.id = some c → c.userId = userId →
      next' c = ((next c).1.ofUser userId, (next c).2)) :
    withOwned (d.ofUser userId) userId conversationId next' =
      ((withOwned d userId conversationId next).1.ofUser userId,
        (withOwned d userId conversationId next).2) := by
  unfold withOwned
  rw [owned_ofUser]
  cases howned : ownedConversation (d.find conversationId) userId with
  | error e => rfl
  | ok c =>
      obtain ⟨hrow, howner⟩ := row_of_owned howned
      exact h c hrow howner

/-- What other users do with theirs. -/
theorem withOwned_other {other : Uuid} {conversationId : Option Uuid}
    {next : ConversationRow → Served} (hne : other ≠ userId)
    (h : ∀ c, d.conversations.find? c.id = some c → c.userId ≠ userId →
      (next c).1.ofUser userId = d.ofUser userId) :
    (withOwned d other conversationId next).1.ofUser userId = d.ofUser userId := by
  unfold withOwned
  cases howned : ownedConversation (d.find conversationId) other with
  | error e => rfl
  | ok c =>
      obtain ⟨hrow, howner⟩ := row_of_owned howned
      exact h c hrow (howner ▸ hne)

theorem linked_withOwned {other : Uuid} {conversationId : Option Uuid}
    {next : ConversationRow → Served} (hd : Linked d)
    (h : ∀ c, d.conversations.find? c.id = some c → Linked (next c).1) :
    Linked (withOwned d other conversationId next).1 := by
  unfold withOwned
  cases howned : ownedConversation (d.find conversationId) other with
  | error e => exact hd
  | ok c => exact h c (row_of_owned howned).1

theorem loadHistory_ofUser {c : ConversationRow}
    (hrow : d.conversations.find? c.id = some c) (howner : c.userId = userId) :
    loadHistory host.toAdmissionHost c.id (d.ofUser userId).messages =
      loadHistory host.toAdmissionHost c.id d.messages := by
  have hsame := ofConversation_ofUser hrow howner
  unfold ofConversation at hsame
  unfold loadHistory
  rw [hsame]

theorem listMessages_ofUser {c : ConversationRow}
    (hrow : d.conversations.find? c.id = some c) (howner : c.userId = userId)
    (cursor : Option String) (limit : PageSize) :
    listMessages host c.id cursor limit (d.ofUser userId).messages =
      listMessages host c.id cursor limit d.messages := by
  unfold listMessages selectMessages
  rw [ofConversation_ofUser hrow howner]

theorem listConversations_ofUser (d : ConversationStore) (userId : Uuid) :
    listConversations (d.ofUser userId) userId = listConversations d userId := by
  unfold listConversations ConversationStore.ofUser Table.restrict
  dsimp only
  rw [List.filter_filter]
  refine congrArg (fun rows => List.map _ (List.insertionSort _ rows))
    (List.filter_congr (fun c _ => ?_))
  unfold isOf
  cases decide (c.userId = userId) <;> simp

section Reply

variable {c : ConversationRow} {complete : List Turn → Except ModelError String}
  {id : Uuid} {now : DateTime}

theorem replyTo_own (hrow : d.conversations.find? c.id = some c)
    (howner : c.userId = userId) (hfresh : ∀ m ∈ d.messages, m.id ≠ id) :
    replyTo host store (d.ofUser userId) c complete id now =
      ((replyTo host store d c complete id now).1.ofUser userId,
        (replyTo host store d c complete id now).2) := by
  unfold replyTo
  rw [loadHistory_ofUser hrow howner]
  dsimp only
  split
  · rfl
  · cases complete (loadHistory host.toAdmissionHost c.id d.messages) with
    | error e => rfl
    | ok text => exact appendAndTouch_own hrow howner rfl hfresh

theorem replyTo_other (hrow : d.conversations.find? c.id = some c)
    (howner : c.userId ≠ userId) :
    (replyTo host store d c complete id now).1.ofUser userId = d.ofUser userId := by
  unfold replyTo
  dsimp only
  split
  · rfl
  · cases complete (loadHistory host.toAdmissionHost c.id d.messages) with
    | error e => rfl
    | ok text => exact appendAndTouch_other hrow howner rfl

theorem linked_replyTo (hd : Linked d) (hrow : d.conversations.find? c.id = some c) :
    Linked (replyTo host store d c complete id now).1 := by
  unfold replyTo
  dsimp only
  split
  · exact hd
  · cases complete (loadHistory host.toAdmissionHost c.id d.messages) with
    | error e => exact hd
    | ok text => exact hd.appendAndTouch hrow rfl

end Reply

theorem linked_serve {r : ConversationRequest} (hd : Linked d) :
    Linked (serveConversation host store d r).1 := by
  unfold serveConversation
  split
  · unfold createConversation
    dsimp only
    split
    · exact hd
    · exact linked_create hd _
  · exact hd
  · exact linked_withOwned hd (fun _ _ => hd)
  · exact linked_withOwned hd (fun _ _ => hd.rewrite)
  · exact linked_withOwned hd (fun _ _ => hd)
  · split
    · exact hd
    · exact linked_withOwned hd (fun _ hrow => hd.appendAndTouch hrow rfl)
  · split
    · exact hd
    · exact linked_withOwned hd (fun _ hrow => linked_replyTo hd hrow)

/-- Requests of other users. -/
theorem serve_other {r : ConversationRequest} (hd : Linked d) (hne : r.userId ≠ userId) :
    (serveConversation host store d r).1.ofUser userId = d.ofUser userId := by
  unfold serveConversation
  split
  · rename_i title id _
    unfold createConversation
    dsimp only
    split
    · rfl
    · rename_i hnone
      rw [ofUser_create hd hnone]
      exact if_neg (by simp [isOf, newConversation, hne])
  · rfl
  · exact withOwned_other hne (fun _ _ _ => rfl)
  · exact withOwned_other hne (fun c hrow howner =>
      ofUser_rewrite_of_not (ConversationRow.userId_delete r.now) hrow howner)
  · exact withOwned_other hne (fun _ _ _ => rfl)
  · split
    · rfl
    · exact withOwned_other hne (fun c hrow howner => appendAndTouch_other hrow howner rfl)
  · split
    · rfl
    · exact withOwned_other hne (fun c hrow howner => replyTo_other hrow howner)

/-- Requests of the user. -/
theorem serve_own {r : ConversationRequest} (hd : Linked d)
    (hfresh : freshIds d r = true) (hown : r.userId = userId) :
    serveConversation host store (d.ofUser userId) r =
      ((serveConversation host store d r).1.ofUser userId,
        (serveConversation host store d r).2) := by
  obtain ⟨user, call, now⟩ := r
  obtain rfl : user = userId := hown
  cases call with
  | createConversation title id =>
      have hnone : d.conversations.find? id = none :=
        Option.isNone_iff_eq_none.mp hfresh
      have hnone' : (d.ofUser user).conversations.find? id = none := by
        show (d.conversations.restrict (isOf user)).find? id = none
        rw [Table.find?_restrict, hnone]
        rfl
      simp only [serveConversation, createConversation, hnone, hnone']
      rw [ofUser_create hd hnone]
      exact congrArg (·, _) (if_pos (decide_eq_true rfl)).symm
  | listConversations =>
      simp only [serveConversation, listConversations_ofUser]
  | getConversation conversationId => exact withOwned_own (fun _ _ _ => rfl)
  | deleteConversation conversationId =>
      exact withOwned_own (fun c _ _ => congrArg (·, _)
        (ofUser_rewrite (ConversationRow.userId_delete now)).symm)
  | listMessages conversationId cursor limit =>
      refine withOwned_own (fun c hrow howner => ?_)
      rw [listMessages_ofUser hrow howner]
  | createMessage conversationId role content clientMessageId id =>
      have hids : ∀ m ∈ d.messages, m.id ≠ id := by
        simpa [freshIds] using hfresh
      simp only [serveConversation]
      split
      · rfl
      · exact withOwned_own (fun c hrow howner =>
          appendAndTouch_own hrow howner rfl hids)
  | createAssistantReply conversationId gemini id =>
      have hids : ∀ m ∈ d.messages, m.id ≠ id := by
        simpa [freshIds] using hfresh
      cases gemini with
      | none => rfl
      | some complete =>
          exact withOwned_own (fun c hrow howner => replyTo_own hrow howner hids)

/-- A request sees and changes only what its user owns. -/
theorem unwinding_conversations (host : PageHost) (store : Dict → Option Dict)
    (userId : Uuid) :
    Server.Unwinding (conversationApi host store) (fun r => decide (r.userId = userId))
      (ConversationStore.ofUser userId) Linked (fun d r => freshIds d r = true) where
  keeps hd _ := linked_serve hd
  others hd _ hother := serve_other hd (of_decide_eq_false hother)
  own hd hr hown := serve_own hd hr (of_decide_eq_true hown)

/-- **Users are apart.**  While the ids that are drawn are new, the answers to the
requests of a user are those they get from a server that serves nobody else. -/
theorem users_apart (host : PageHost) (store : Dict → Option Dict) (userId : Uuid)
    (rs : List ConversationRequest)
    (h : (conversationApi host store).machine.Along (fun d r => freshIds d r = true)
      .empty rs) :
    (conversationApi host store).answersTo (fun r => decide (r.userId = userId)) rs .empty =
      (conversationApi host store).answers
        (rs.filter (fun r => decide (r.userId = userId))) .empty :=
  ((unwinding_conversations host store userId).purge (fun _ hm => by cases hm) h).1

/-- The second user finds the conversation of the first, and is not let in. -/
def twoOwners : List ConversationRequest :=
  [⟨1, .createConversation none 10, 0⟩, ⟨2, .createConversation (some "mine") 20, 1⟩,
    ⟨1, .createMessage (some 10) "user" Dict.empty (some "a") 100, 2⟩,
    ⟨2, .createMessage (some 10) "user" Dict.empty (some "a") 101, 3⟩,
    ⟨2, .createMessage (some 20) "user" Dict.empty (some "a") 102, 4⟩,
    ⟨2, .deleteConversation (some 10), 5⟩, ⟨1, .listMessages (some 10) none default, 6⟩,
    ⟨1, .createAssistantReply (some 10) (some fun _ => .ok "hello") 103, 7⟩,
    ⟨1, .listConversations, 8⟩]

theorem users_apart_twoOwners :
    (conversationApi pagesHost some).answersTo (fun r => decide (r.userId = 1)) twoOwners
        .empty =
      (conversationApi pagesHost some).answers
        (twoOwners.filter (fun r => decide (r.userId = 1))) .empty :=
  users_apart pagesHost some 1 twoOwners (by decide +kernel)

end Requests

end Imagin4.Ports
