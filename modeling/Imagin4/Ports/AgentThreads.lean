import Imagin4.Verified.Scripts
import Imagin4.Verified.Table
import Imagin4.Ports.MessageAppends

/-!
# The conversation of an external thread

`POST /v1/agent/message` of `app/api/v1/agent_router.py` forwards the messages of
many end users under one account.  It finds or creates the conversation of the pair
of account and `external_conversation_id`, and appends the message there in the same
transaction.  Two first messages of one thread race on the unique index
`uq_conversations_user_external_ref` of `app/db/models.py`; the loser rolls back,
looks again, and appends to the row that won.

The statements interleave with those of the endpoints of
`app/api/v1/conversations.py`, which create and delete conversations and append to
any of them.

## Main results

* `threadRule` — the invariant of a transaction: it writes at most one
  conversation, which fits the others, and appends to a conversation of its thread.
* `threads_run` — no two conversations share a thread, and two forwarded messages
  are in one conversation exactly if account and external id are the same.
-/

namespace Imagin4.Ports

open Imagin4.Verified

/-! ## Rows -/

/-- A row of `conversations`. -/
structure Conversation where
  id : Uuid
  userId : Uuid
  title : String
  status : String
  externalRef : Option String
  deletedAt : Option DateTime

namespace Conversation

/-- What the unique index is over. -/
def thread (c : Conversation) : Uuid × Option String := (c.userId, c.externalRef)

/-- The primary key, and the unique index, which leaves out the rows without an
`external_ref`. -/
def conflicts (c c' : Conversation) : Bool :=
  c.id = c'.id || (c.externalRef.isSome && c.thread = c'.thread)

/-- `conv.deleted_at = now; conv.status = "deleted"`. -/
def markDeleted (now : DateTime) (c : Conversation) : Conversation :=
  { c with deletedAt := some now, status := "deleted" }

end Conversation

/-- The two tables. -/
structure ThreadStore where
  conversations : Table Conversation.id
  messages : List ChatMessage

/-- No rows. -/
def ThreadStore.empty : ThreadStore := ⟨Table.empty, []⟩

/-- A version of a conversation, or what `_append_message` writes. -/
inductive ThreadVersion where
  | conversation (c : Conversation)
  | message (v : MessageVersion)

/-- An entry of the unique index, or what `_append_message` locks; the row of a
conversation is among these. -/
inductive ThreadKey where
  | externalRef (userId : Uuid) (ref : String)
  | message (k : MessageKey)
deriving DecidableEq

namespace ThreadVersion

/-- The locks that come with a write. -/
def locks : ThreadVersion → List ThreadKey
  | conversation c =>
      .message (.conversation c.id) ::
        c.externalRef.toList.map (ThreadKey.externalRef c.userId)
  | message v => v.locks.map ThreadKey.message

/-- Installs a write. -/
def put : ThreadVersion → ThreadStore → ThreadStore
  | conversation c, d => { d with conversations := d.conversations.put c }
  | message v, d => { d with messages := v.put d.messages }

end ThreadVersion

/-! ## Statements -/

/-- The statements of the endpoints. -/
inductive ThreadQuery where
  /-- `SELECT … WHERE user_id = :user_id AND external_ref = :external_ref` -/
  | findThread (userId : Uuid) (ref : String)
  /-- `SELECT … WHERE id = :id` -/
  | getConversation (id : Uuid)
  /-- the flush of a new conversation; `false` is an `IntegrityError` -/
  | insertConversation (c : Conversation)
  /-- `UPDATE conversations SET deleted_at = :now, status = 'deleted' WHERE id = :id` -/
  | markDeleted (id : Uuid) (now : DateTime)
  | message (q : MessageQuery)

/-- What a statement answers. -/
@[reducible] def ThreadQuery.Answer : ThreadQuery → Type
  | findThread _ _ => Option Conversation
  | getConversation _ => Option Conversation
  | insertConversation _ => Bool
  | markDeleted _ _ => Unit
  | message q => q.Answer

/-- The conversation of a thread. -/
def ThreadStore.threadOf (d : ThreadStore) (userId : Uuid) (ref : String) :
    Option Conversation :=
  d.conversations.rows.find? (fun c => c.thread = (userId, some ref))

/-- The effect of a statement.  A statement that would write what others hold
waits. -/
def threadAnswer : (q : ThreadQuery) → Unit → (ThreadKey → Bool) → ThreadStore →
    Option (List ThreadVersion × q.Answer)
  | .findThread userId ref, _, _, d => some ([], d.threadOf userId ref)
  | .getConversation id, _, _, d => some ([], d.conversations.find? id)
  | .insertConversation c, _, held, d =>
      if d.conversations.rows.any c.conflicts then some ([], false)
      else if (ThreadVersion.conversation c).locks.any held then none
      else some ([.conversation c], true)
  | .markDeleted id now, _, held, d =>
      match d.conversations.find? id with
      | none => some ([], ())
      | some c =>
          let version := ThreadVersion.conversation (c.markDeleted now)
          if version.locks.any held then none else some ([version], ())
  | .message q, hint, held, d =>
      (messageAnswer q hint (fun k => held (.message k)) d.messages).map
        (fun a => (a.1.map ThreadVersion.message, a.2))

theorem threadAnswer_respects {q : ThreadQuery} {hint : Unit}
    {held : ThreadKey → Bool} {d : ThreadStore} {vs : List ThreadVersion}
    {r : q.Answer} (hanswer : threadAnswer q hint held d = some (vs, r)) :
    ∀ v ∈ vs, ∀ k ∈ v.locks, held k = false := by
  have hfree : ∀ {ks : List ThreadKey}, ¬ ks.any held = true →
      ∀ k ∈ ks, held k = false := by
    intro ks hany k hk
    rw [Bool.not_eq_true, List.any_eq_false] at hany
    exact Bool.eq_false_iff.mpr (hany k hk)
  intro v hv k hk
  cases q with
  | findThread userId ref =>
      cases hanswer
      cases hv
  | getConversation id =>
      cases hanswer
      cases hv
  | insertConversation c =>
      simp only [threadAnswer] at hanswer
      split at hanswer
      · cases hanswer
        cases hv
      · split at hanswer
        · cases hanswer
        · rename_i hany
          cases hanswer
          obtain rfl := List.mem_singleton.mp hv
          exact hfree hany k hk
  | markDeleted id now =>
      simp only [threadAnswer] at hanswer
      split at hanswer
      · cases hanswer
        cases hv
      · split at hanswer
        · cases hanswer
        · rename_i hany
          cases hanswer
          obtain rfl := List.mem_singleton.mp hv
          exact hfree hany k hk
  | message q =>
      obtain ⟨⟨ws, b⟩, hmessage, heq⟩ := Option.map_eq_some_iff.mp hanswer
      cases heq
      obtain ⟨w, hw, rfl⟩ := List.mem_map.mp hv
      obtain ⟨j, hj, rfl⟩ := List.mem_map.mp hk
      exact messageAnswer_respects hmessage w hw j hj

/-- The tables, with their unique indexes and row locks. -/
def threadDatabase : Database ThreadStore ThreadVersion ThreadKey Unit ThreadQuery
    ThreadQuery.Answer where
  put := ThreadVersion.put
  locks := ThreadVersion.locks
  answer := threadAnswer
  respects := threadAnswer_respects

/-! ## Requests -/

/-- What the endpoint reads of a body to find the thread and append. -/
structure AgentMessageIn where
  externalConversationId : String
  text : String
  clientMessageId : Option String

/-- A request, with what it draws: the ids of new rows and the time. -/
structure AgentRequest where
  userId : Uuid
  payload : AgentMessageIn
  conversationId : Uuid
  messageId : Uuid
  receivedAt : DateTime

namespace AgentRequest

/-- `payload.external_conversation_id.strip()`. -/
def externalRef (r : AgentRequest) : String := strip r.payload.externalConversationId

/-- The thread of a request. -/
def thread (r : AgentRequest) : Uuid × Option String := (r.userId, some r.externalRef)

/-- `Conversation(user_id=…, external_ref=…, title=f"agent:{external_ref}"[:200])`. -/
def conversation (r : AgentRequest) : Conversation where
  id := r.conversationId
  userId := r.userId
  title := String.ofList (("agent:" ++ r.externalRef).toList.take 200)
  status := "active"
  externalRef := some r.externalRef
  deletedAt := none

/-- `_append_message(session, conv, "user", {"text": payload.text}, …)`. -/
def message (r : AgentRequest) (conversationId : Uuid) : NewMessage where
  id := r.messageId
  conversationId := conversationId
  role := "user"
  content := Dict.empty.set "text" (.str r.payload.text) (.str _)
  clientMessageId := r.payload.clientMessageId
  createdAt := r.receivedAt

end AgentRequest

/-- `Conversation(user_id=user.id, title=payload.title or "New conversation")`. -/
def newConversation (id userId : Uuid) (title : Option String) : Conversation where
  id := id
  userId := userId
  title := if title.getD "" = "" then "New conversation" else title.getD ""
  status := "active"
  externalRef := none
  deletedAt := none

/-! ## Scripts -/

/-- A call of an endpoint.  `fallBack` is what a forward does after the
`IntegrityError`, in a transaction of its own; `append` stands for every other call
of `_append_message`. -/
inductive ThreadCall where
  | forward (r : AgentRequest)
  | fallBack (r : AgentRequest)
  | append (call : AppendCall)
  | create (id userId : Uuid) (title : Option String)
  | delete (userId id : Uuid) (now : DateTime)

/-- What is left of a transaction. -/
abbrev ThreadScript := Script ThreadQuery ThreadQuery.Answer

section Scripts

variable (store : Dict → Option Dict)

/-- `_append_message`, among the statements of the endpoints. -/
def appendTo (call : AppendCall) : ThreadScript :=
  (appendScript store call).embed ThreadQuery.message (fun _ answer => answer)

/-- The message is appended to the conversation that was found or made. -/
def fillScript (r : AgentRequest) (conversationId : Uuid) : ThreadScript :=
  appendTo store (.append (r.message conversationId))

/-- `session.add(conv); await session.flush()`. -/
def openScript (r : AgentRequest) : ThreadScript :=
  .query (.insertConversation r.conversation)
    (fun inserted => if inserted then fillScript store r r.conversationId else .rollback)

/-- `_get_or_create_conversation_by_external_ref`, and the append: 400 for a blank
id, 410 for a deleted conversation. -/
def forwardScript (r : AgentRequest) : ThreadScript :=
  if r.externalRef = "" then .rollback
  else .query (.findThread r.userId r.externalRef)
    (fun existing =>
      match existing with
      | some c => if c.deletedAt.isSome then .rollback else fillScript store r c.id
      | none => openScript store r)

/-- The second look, after a race that was lost.  It does not look at
`deleted_at`. -/
def fallBackScript (r : AgentRequest) : ThreadScript :=
  .query (.findThread r.userId r.externalRef)
    (fun existing =>
      match existing with
      | some c => fillScript store r c.id
      | none => .rollback)

/-- `create_conversation`. -/
def createScript (id userId : Uuid) (title : Option String) : ThreadScript :=
  .query (.insertConversation (newConversation id userId title))
    (fun inserted => if inserted then .commit else .rollback)

/-- `delete_conversation`, with `_get_owned_conversation`. -/
def deleteScript (userId id : Uuid) (now : DateTime) : ThreadScript :=
  .query (.getConversation id)
    (fun existing =>
      match existing with
      | none => .rollback
      | some c =>
          if c.deletedAt.isSome || c.userId ≠ userId then .rollback
          else .query (.markDeleted id now) (fun _ => .commit))

/-- What a call sends. -/
def threadScript : ThreadCall → ThreadScript
  | .forward r => forwardScript store r
  | .fallBack r => fallBackScript store r
  | .append call => appendTo store call
  | .create id userId title => createScript id userId title
  | .delete userId id now => deleteScript userId id now

end Scripts

/-- The request whose message a call appends. -/
def ThreadCall.request : ThreadCall → Option AgentRequest
  | .forward r => some r
  | .fallBack r => some r
  | _ => none

/-! ## Threads are unique -/

/-- A version of a conversation that the indexes let in: a row under its id is of its
thread, and a row of its thread is under its id. -/
structure Fits (conversations : Table Conversation.id) (c : Conversation) :
    Prop where
  same : ∀ c' ∈ conversations, c'.id = c.id → c'.thread = c.thread
  alone : ∀ c' ∈ conversations, c.externalRef ≠ none → c'.thread = c.thread →
    c'.id = c.id

/-- No two rows share a thread. -/
def OneEach (conversations : Table Conversation.id) : Prop :=
  ∀ c ∈ conversations, Fits conversations c

/-- The row under an id is of this thread. -/
def Holds (conversations : Table Conversation.id) (id : Uuid)
    (thread : Uuid × Option String) : Prop :=
  ∃ c ∈ conversations, c.id = id ∧ c.thread = thread

variable {conversations : Table Conversation.id} {c c' : Conversation}

theorem oneEach_empty : OneEach Table.empty := fun _ hc => by cases hc

/-- A version that fits keeps the threads apart. -/
theorem OneEach.put (h : OneEach conversations) (hc : Fits conversations c) :
    OneEach (conversations.put c) := by
  intro c₁ h₁
  rcases Table.mem_put.mp h₁ with rfl | ⟨hold, hne⟩
  · refine ⟨fun c₂ h₂ hid => ?_, fun c₂ h₂ href hthread => ?_⟩
    · rcases Table.mem_put.mp h₂ with rfl | ⟨h₂, _⟩
      · rfl
      · exact hc.same c₂ h₂ hid
    · rcases Table.mem_put.mp h₂ with rfl | ⟨h₂, _⟩
      · rfl
      · exact hc.alone c₂ h₂ href hthread
  · refine ⟨fun c₂ h₂ hid => ?_, fun c₂ h₂ href hthread => ?_⟩
    · rcases Table.mem_put.mp h₂ with rfl | ⟨h₂, _⟩
      · exact absurd hid.symm hne
      · exact (h c₁ hold).same c₂ h₂ hid
    · rcases Table.mem_put.mp h₂ with rfl | ⟨h₂, _⟩
      · have href₂ : c₂.externalRef ≠ none := by
          have hrefs := congrArg Prod.snd hthread
          rw [show c₂.externalRef = c₁.externalRef from hrefs]
          exact href
        exact (hc.alone c₁ hold href₂ hthread.symm).symm
      · exact (h c₁ hold).alone c₂ h₂ href hthread

/-- A version of another row and another thread does not get in the way. -/
theorem Fits.put (h : Fits conversations c) (hid : c'.id ≠ c.id)
    (hthread : c.externalRef ≠ none → c'.thread ≠ c.thread) :
    Fits (conversations.put c') c := by
  constructor
  · intro c₁ h₁ hid₁
    rcases Table.mem_put.mp h₁ with rfl | ⟨h₁, _⟩
    · exact absurd hid₁ hid
    · exact h.same c₁ h₁ hid₁
  · intro c₁ h₁ href hthread₁
    rcases Table.mem_put.mp h₁ with rfl | ⟨h₁, _⟩
    · exact absurd hthread₁ (hthread href)
    · exact h.alone c₁ h₁ href hthread₁

/-- A version that fits leaves the thread of every row. -/
theorem Holds.put {id : Uuid} {thread : Uuid × Option String}
    (h : Holds conversations id thread) (hc : Fits conversations c) :
    Holds (conversations.put c) id thread := by
  obtain ⟨c₁, h₁, rfl, rfl⟩ := h
  by_cases hid : c₁.id = c.id
  · exact ⟨c, Table.mem_put.mpr (Or.inl rfl), hid.symm, (hc.same c₁ h₁ hid).symm⟩
  · exact ⟨c₁, Table.mem_put.mpr (Or.inr ⟨h₁, hid⟩), rfl, rfl⟩

/-- A row without conflicts fits. -/
theorem fits_of_not_conflicts (h : conversations.rows.any c.conflicts = false) :
    Fits conversations c := by
  have hno : ∀ c' ∈ conversations, c.conflicts c' = false := fun c' hc' =>
    Bool.eq_false_iff.mpr (List.any_eq_false.mp h c' hc')
  constructor
  · intro c' hc' hid
    have := hno c' hc'
    simp [Conversation.conflicts, hid] at this
  · intro c' hc' href hthread
    have := hno c' hc'
    simp [Conversation.conflicts, hthread, Option.ne_none_iff_isSome.mp href] at this

/-- A deleted conversation keeps its thread. -/
theorem OneEach.fits_markDeleted (h : OneEach conversations) (hc : c ∈ conversations)
    (now : DateTime) : Fits conversations (c.markDeleted now) :=
  ⟨(h c hc).same, (h c hc).alone⟩

/-- The conversation that is found is of the thread. -/
theorem holds_of_threadOf {d : ThreadStore} {userId : Uuid} {ref : String}
    (h : d.threadOf userId ref = some c) :
    Holds d.conversations c.id (userId, some ref) :=
  ⟨c, List.mem_of_find?_eq_some h, rfl, by simpa using List.find?_some h⟩

/-! ## What a transaction has written -/

/-- The table after a transaction has written at most one conversation. -/
def opened (conversation : Option Conversation)
    (conversations : Table Conversation.id) : Table Conversation.id :=
  conversation.elim conversations conversations.put

/-- The rows among the writes. -/
def rowOf : MessageVersion → Option ChatMessage
  | .lock _ => none
  | .row u => some u

theorem putAll_message (vs : List MessageVersion) (d : ThreadStore) :
    threadDatabase.putAll (vs.map ThreadVersion.message) d =
      { d with messages := d.messages ++ vs.filterMap rowOf } := by
  induction vs generalizing d with
  | nil => simp
  | cons v vs ih =>
      have hcons : threadDatabase.putAll ((v :: vs).map ThreadVersion.message) d =
          threadDatabase.putAll (vs.map ThreadVersion.message)
            { d with messages := v.put d.messages } := rfl
      rw [hcons, ih]
      cases v with
      | lock conversationId => simp [MessageVersion.put, rowOf, List.filterMap_cons]
      | row u => simp [MessageVersion.put, rowOf]

/-- A transaction that is under way. -/
abbrev ThreadTx := Tx ThreadCall ThreadVersion ThreadQuery ThreadQuery.Answer

/-- The conversation a call appends to. -/
def AppendCall.conversationId : AppendCall → Uuid
  | append new => new.conversationId
  | lookAgain new => new.conversationId

/-- The statement appends to no other conversation. -/
def Into (conversationId : Uuid) : ThreadQuery → Prop
  | .message (.insert u) => u.conversationId = conversationId
  | .message _ => True
  | _ => False

/-- A transaction has written at most one conversation, and messages of one
conversation, which is that of its thread. -/
structure Filling (conversations : Table Conversation.id) (x : ThreadTx)
    (conversationId : Uuid) (conversation : Option Conversation)
    (written : List MessageVersion) : Prop where
  writes : x.writes = conversation.toList.map ThreadVersion.conversation ++
    written.map ThreadVersion.message
  fits : ∀ c ∈ conversation, Fits conversations c
  into : ∀ u, MessageVersion.row u ∈ written → u.conversationId = conversationId
  thread : ∀ r, x.op.request = some r →
    (∃ c ∈ conversation, c.id = conversationId ∧ c.thread = r.thread) ∨
      Holds conversations conversationId r.thread

namespace Filling

variable {x y : ThreadTx} {conversationId : Uuid} {conversation : Option Conversation}
  {written : List MessageVersion} {d : ThreadStore}

/-- What the transaction sees. -/
theorem visible (h : Filling conversations x conversationId conversation written)
    (d : ThreadStore) :
    x.visible threadDatabase d =
      ⟨opened conversation d.conversations, d.messages ++ written.filterMap rowOf⟩ := by
  unfold Tx.visible
  rw [h.writes, Database.putAll_append, putAll_message]
  cases conversation <;> rfl

/-- The threads are still apart when it commits, … -/
theorem oneEach (h : Filling conversations x conversationId conversation written)
    (hone : OneEach conversations) : OneEach (opened conversation conversations) := by
  cases conversation with
  | none => exact hone
  | some c => exact hone.put (h.fits c rfl)

/-- … every row is still of its thread, … -/
theorem holds (h : Filling conversations x conversationId conversation written)
    {id : Uuid} {thread : Uuid × Option String} (hid : Holds conversations id thread) :
    Holds (opened conversation conversations) id thread := by
  cases conversation with
  | none => exact hid
  | some c => exact hid.put (h.fits c rfl)

/-- … and the messages are in the conversation of the thread. -/
theorem holds_thread (h : Filling conversations x conversationId conversation written)
    {r : AgentRequest} (hr : x.op.request = some r) :
    Holds (opened conversation conversations) conversationId r.thread := by
  rcases h.thread r hr with ⟨c, hc, hid, hthread⟩ | hholds
  · obtain rfl := Option.mem_def.mp hc
    exact ⟨c, Table.mem_put.mpr (Or.inl rfl), hid, hthread⟩
  · exact h.holds hholds

/-- A message among the writes. -/
theorem mem_written (h : Filling conversations x conversationId conversation written)
    {u : ChatMessage} (hu : ThreadVersion.message (.row u) ∈ x.writes) :
    MessageVersion.row u ∈ written := by
  rw [h.writes] at hu
  simpa using hu

end Filling

/-! ## Stages -/

section Stages

variable (store : Dict → Option Dict)

/-- What is left of a transaction that has not written. -/
inductive Reading (op : ThreadCall) : ThreadScript → Prop
  | rollback : Reading op .rollback
  | find (r : AgentRequest)
      (next : Option Conversation → ThreadScript)
      (hop : ∀ r', op.request = some r' → r' = r)
      (hsome : ∀ c, next (some c) = .rollback ∨ next (some c) = fillScript store r c.id)
      (hnone : next none = .rollback ∨ next none = openScript store r) :
      Reading op (.query (.findThread r.userId r.externalRef) next)
  | insert (c : Conversation) (next : Bool → ThreadScript)
      (hop : ∀ r, op.request = some r → c.thread = r.thread)
      (htrue : (next true).Every (Into c.id)) (hfalse : next false = .rollback) :
      Reading op (.query (.insertConversation c) next)
  | look (id : Uuid) (now : DateTime) (next : Option Conversation → ThreadScript)
      (hop : op.request = none)
      (hnext : ∀ existing, next existing = .rollback ∨
        next existing = .query (.markDeleted id now) (fun _ => .commit)) :
      Reading op (.query (.getConversation id) next)
  | delete (id : Uuid) (now : DateTime) (hop : op.request = none) :
      Reading op (.query (.markDeleted id now) (fun _ => .commit))

/-- How far a transaction has come, and what it may rely on there. -/
inductive ThreadStage (d : ThreadStore) (x : ThreadTx) : Prop
  | reading (hwrites : x.writes = []) (hscript : Reading store x.op x.script)
  | filling (conversationId : Uuid) (conversation : Option Conversation)
      (written : List MessageVersion)
      (hfilling : Filling d.conversations x conversationId conversation written)
      (hscript : x.script.Every (Into conversationId))

variable {store} {d : ThreadStore} {x y : ThreadTx}

/-- `_append_message` appends to the conversation it is given. -/
theorem every_appendScript (call : AppendCall) :
    (appendScript store call).Every
      (fun q => Into call.conversationId (.message q)) := by
  have hlock : ∀ new : NewMessage, (lockScript store new).Every
      (fun q => Into new.conversationId (.message q)) := by
    intro new
    refine .query _ _ trivial (fun _ => .query _ _ trivial (fun sequenceNo => ?_))
    unfold insertScript
    cases store new.content with
    | none => exact .rollback
    | some content =>
        refine .query _ _ rfl (fun inserted => ?_)
        cases inserted
        · exact .rollback
        · exact .commit
  unfold appendScript
  cases call with
  | append new =>
      dsimp only
      split
      · exact hlock new
      · split
        · exact hlock new
        · refine .query _ _ trivial (fun existing => ?_)
          cases existing with
          | some u => exact .rollback
          | none => exact hlock new
  | lookAgain new =>
      dsimp only
      split
      · exact .rollback
      · split
        · exact .rollback
        · exact .query _ _ trivial (fun _ => .rollback)

theorem every_appendTo (call : AppendCall) :
    (appendTo store call).Every (Into call.conversationId) :=
  (every_appendScript call).embed (f := ThreadQuery.message) (fun _ hq => hq)

theorem every_fillScript (r : AgentRequest) (conversationId : Uuid) :
    (fillScript store r conversationId).Every (Into conversationId) :=
  every_appendTo (.append (r.message conversationId))

/-- A transaction that has not written, from the moment it appends. -/
theorem Filling.of_writes_nil {conversationId : Uuid} (hwrites : x.writes = [])
    (hthread : ∀ r, x.op.request = some r →
      Holds conversations conversationId r.thread) :
    Filling conversations x conversationId none [] where
  writes := hwrites
  fits _ hc := by cases hc
  into _ hu := by cases hu
  thread r hr := Or.inr (hthread r hr)

/-- A call begins by reading. -/
theorem threadStage_begin (op : ThreadCall) :
    ThreadStage store d ⟨op, threadScript store op, [], false⟩ := by
  cases op with
  | forward r =>
      refine .reading rfl ?_
      show Reading store (.forward r) (forwardScript store r)
      unfold forwardScript
      split
      · exact .rollback
      · refine .find r _ (fun r' hr' => (Option.some.inj hr').symm) (fun c => ?_)
          (Or.inr rfl)
        dsimp only
        split
        · exact Or.inl rfl
        · exact Or.inr rfl
  | fallBack r =>
      exact .reading rfl (.find r _ (fun r' hr' => (Option.some.inj hr').symm)
        (fun c => Or.inr rfl) (Or.inl rfl))
  | append call =>
      exact .filling call.conversationId none []
        (.of_writes_nil rfl (fun r hr => by cases hr)) (every_appendTo call)
  | create id userId title =>
      exact .reading rfl (.insert _ _ (fun r hr => by cases hr) .commit rfl)
  | delete userId id now =>
      refine .reading rfl (.look id now _ rfl (fun existing => ?_))
      cases existing with
      | none => exact Or.inl rfl
      | some c =>
          dsimp only
          split
          · exact Or.inl rfl
          · exact Or.inr rfl

/-- Nothing written yet, the transaction sees what is committed. -/
theorem visible_of_writes_nil (hwrites : x.writes = []) :
    x.visible threadDatabase d = d := by
  unfold Tx.visible
  rw [hwrites]
  rfl

/-- The rows a statement of `_append_message` writes are those it is given. -/
theorem into_of_messageAnswer {q : MessageQuery} {hint : Unit}
    {held : MessageKey → Bool} {messages : List ChatMessage}
    {vs : List MessageVersion} {r : q.Answer} {conversationId : Uuid}
    (hq : Into conversationId (.message q))
    (hanswer : messageAnswer q hint held messages = some (vs, r)) :
    ∀ u, MessageVersion.row u ∈ vs → u.conversationId = conversationId := by
  intro u hu
  cases q with
  | find id clientMessageId =>
      cases hanswer
      cases hu
  | nextSequenceNo id =>
      cases hanswer
      cases hu
  | lockConversation id =>
      simp only [messageAnswer] at hanswer
      split at hanswer
      · cases hanswer
      · cases hanswer
        simp at hu
  | insert v =>
      simp only [messageAnswer] at hanswer
      split at hanswer
      · cases hanswer
        cases hu
      · split at hanswer
        · cases hanswer
        · cases hanswer
          obtain rfl : u = v := by simpa using hu
          exact hq

/-- A statement that writes nothing leaves what is left to read. -/
theorem reading_next {script : ThreadScript} (hwrites : x.writes = [])
    (h : Reading store x.op script) : ThreadStage store d (x.next [] script) := by
  refine .reading ?_ h
  show x.writes ++ [] = []
  rw [hwrites]
  rfl

/-- From the append on. -/
theorem filling_next {script : ThreadScript} (conversationId : Uuid)
    (hwrites : x.writes = [])
    (hthread : ∀ r, x.op.request = some r →
      Holds d.conversations conversationId r.thread)
    (h : script.Every (Into conversationId)) :
    ThreadStage store d (x.next [] script) := by
  refine .filling conversationId none [] (.of_writes_nil ?_ hthread) h
  show x.writes ++ [] = []
  rw [hwrites]
  rfl

/-- A conversation is written, from where the transaction appends to it. -/
theorem opening_next {script : ThreadScript} (hwrites : x.writes = [])
    (hfits : Fits d.conversations c)
    (hthread : ∀ r, x.op.request = some r → c.thread = r.thread)
    (h : script.Every (Into c.id)) :
    ThreadStage store d (x.next [.conversation c] script) := by
  refine .filling c.id (some c) [] ⟨?_, ?_, ?_, ?_⟩ h
  · show x.writes ++ _ = _
    rw [hwrites]
    rfl
  · intro c' hc'
    obtain rfl : c = c' := Option.some.inj hc'
    exact hfits
  · intro u hu
    cases hu
  · intro r hr
    exact Or.inl ⟨c, rfl, rfl, hthread r hr⟩

/-- A statement takes a transaction that has not written to its next stage. -/
theorem reading_query (hd : OneEach d.conversations) (hwrites : x.writes = [])
    {q : ThreadQuery} {next : q.Answer → ThreadScript}
    (hreading : Reading store x.op (.query q next)) {hint : Unit}
    {held : ThreadKey → Bool} {vs : List ThreadVersion} {r : q.Answer}
    (hanswer : threadAnswer q hint held d = some (vs, r)) :
    ThreadStage store d (x.next vs (next r)) := by
  cases hreading with
  | find request next hop hsome hnone =>
      cases hanswer
      cases hfound : d.threadOf request.userId request.externalRef with
      | none =>
          rcases hnone with hend | hopen
          · exact hend ▸ reading_next hwrites .rollback
          · refine hopen ▸ reading_next hwrites (.insert _ _ (fun r' hr' => ?_) ?_ rfl)
            · rw [hop r' hr']
              rfl
            · exact every_fillScript request request.conversationId
      | some c =>
          rcases hsome c with hend | hfill
          · exact hend ▸ reading_next hwrites .rollback
          · refine hfill ▸ filling_next _ hwrites (fun r' hr' => ?_)
              (every_fillScript request c.id)
            rw [hop r' hr']
            exact holds_of_threadOf hfound
  | insert c next hop htrue hfalse =>
      simp only [threadAnswer] at hanswer
      split at hanswer
      · cases hanswer
        exact hfalse ▸ reading_next hwrites .rollback
      · rename_i hany
        split at hanswer
        · cases hanswer
        · cases hanswer
          exact opening_next hwrites
            (fits_of_not_conflicts (Bool.eq_false_iff.mpr hany)) hop htrue
  | look id now next hop hnext =>
      cases hanswer
      rcases hnext (d.conversations.find? id) with hend | hdelete
      · exact hend ▸ reading_next hwrites .rollback
      · exact hdelete ▸ reading_next hwrites (.delete id now hop)
  | delete id now hop =>
      simp only [threadAnswer] at hanswer
      split at hanswer
      · cases hanswer
        refine filling_next id hwrites (fun r hr => ?_) .commit
        rw [hop] at hr
        cases hr
      · rename_i c hfind
        split at hanswer
        · cases hanswer
        · cases hanswer
          have hc : c ∈ d.conversations := (Table.find?_eq_some_iff.mp hfind).1
          refine opening_next hwrites (hd.fits_markDeleted hc now) (fun r hr => ?_)
            .commit
          rw [hop] at hr
          cases hr

/-- So does a statement that appends. -/
theorem filling_query {conversationId : Uuid} {conversation : Option Conversation}
    {written : List MessageVersion}
    (hfilling : Filling d.conversations x conversationId conversation written)
    {q : ThreadQuery} {next : q.Answer → ThreadScript}
    (hevery : Script.Every (Into conversationId) (.query q next)) {hint : Unit}
    {held : ThreadKey → Bool} {seen : ThreadStore} {vs : List ThreadVersion}
    {r : q.Answer} (hanswer : threadAnswer q hint held seen = some (vs, r)) :
    ThreadStage store d (x.next vs (next r)) := by
  obtain ⟨hq, hnext⟩ := hevery.of_query
  cases q with
  | findThread userId ref => cases hq
  | getConversation id => cases hq
  | insertConversation c => cases hq
  | markDeleted id now => cases hq
  | message q =>
      obtain ⟨⟨ws, b⟩, hmessage, heq⟩ := Option.map_eq_some_iff.mp hanswer
      cases heq
      refine .filling conversationId conversation (written ++ ws) ⟨?_, ?_, ?_, ?_⟩
        (hnext b)
      · show x.writes ++ _ = _
        rw [hfilling.writes, List.map_append, List.append_assoc]
      · exact hfilling.fits
      · intro u hu
        rcases List.mem_append.mp hu with hold | hnew
        · exact hfilling.into u hold
        · exact into_of_messageAnswer hq hmessage u hnew
      · exact hfilling.thread

theorem threadStage_query (hd : OneEach d.conversations) (hx : ThreadStage store d x)
    {q : ThreadQuery} {next : q.Answer → ThreadScript} {hint : Unit}
    {held : ThreadKey → Bool} {vs : List ThreadVersion} {r : q.Answer}
    (hscript : x.script = .query q next)
    (hanswer : threadAnswer q hint held (x.visible threadDatabase d) = some (vs, r)) :
    ThreadStage store d (x.next vs (next r)) := by
  cases hx with
  | reading hwrites hreading =>
      rw [visible_of_writes_nil hwrites] at hanswer
      exact reading_query hd hwrites (hscript ▸ hreading) hanswer
  | filling conversationId conversation written hfilling hevery =>
      exact filling_query hfilling (hscript ▸ hevery) hanswer

/-- Only a transaction that appends commits. -/
theorem filling_of_commit (hx : ThreadStage store d x) (hscript : x.script = .commit) :
    ∃ conversationId conversation written,
      Filling d.conversations x conversationId conversation written := by
  cases hx with
  | reading _ hreading =>
      rw [hscript] at hreading
      cases hreading
  | filling conversationId conversation written hfilling _ =>
      exact ⟨conversationId, conversation, written, hfilling⟩

/-- A conversation that one transaction has written is not written by another, nor
is its thread. -/
theorem Filling.apart {i j : Uuid} {conversation : Option Conversation}
    {written written' : List MessageVersion} (hc : conversation = some c)
    (hx : Filling d.conversations x i conversation written)
    (hy : Filling d.conversations y j (some c') written')
    (hfree : ∀ k ∈ x.locks threadDatabase, k ∉ y.locks threadDatabase) :
    c'.id ≠ c.id ∧ (c.externalRef ≠ none → c'.thread ≠ c.thread) := by
  have hlocks : ∀ k ∈ (ThreadVersion.conversation c).locks,
      k ∉ (ThreadVersion.conversation c').locks := by
    intro k hk hk'
    refine hfree k (List.mem_flatMap.mpr ⟨.conversation c, ?_, hk⟩)
      (List.mem_flatMap.mpr ⟨.conversation c', ?_, hk'⟩)
    · rw [hx.writes, hc]
      exact List.mem_cons_self
    · rw [hy.writes]
      exact List.mem_cons_self
  constructor
  · intro hid
    refine hlocks (.message (.conversation c.id)) List.mem_cons_self ?_
    rw [← hid]
    exact List.mem_cons_self
  · intro href hthread
    obtain ⟨ref, href⟩ := Option.ne_none_iff_exists'.mp href
    have huser : c'.userId = c.userId := congrArg Prod.fst hthread
    have href' : c'.externalRef = some ref := (congrArg Prod.snd hthread).trans href
    refine hlocks (.externalRef c.userId ref) ?_ ?_
    · simp [ThreadVersion.locks, href]
    · simp [ThreadVersion.locks, href', huser]

/-- While a transaction is under way, the others leave what it relies on. -/
theorem threadStage_frame (hx : ThreadStage store d x) (hy : ThreadStage store d y)
    (hscript : y.script = .commit)
    (hfree : ∀ k ∈ x.locks threadDatabase, k ∉ y.locks threadDatabase) :
    ThreadStage store (y.visible threadDatabase d) x := by
  obtain ⟨j, conversation', written', hy⟩ := filling_of_commit hy hscript
  rw [hy.visible]
  cases hx with
  | reading hwrites hreading => exact .reading hwrites hreading
  | filling conversationId conversation written hx hevery =>
      refine .filling conversationId conversation written ⟨hx.writes, ?_, hx.into, ?_⟩
        hevery
      · intro c hc
        cases conversation' with
        | none => exact hx.fits c hc
        | some c' =>
            obtain ⟨hid, hthread⟩ := Filling.apart hc hx hy hfree
            exact (hx.fits c hc).put hid hthread
      · intro r hr
        rcases hx.thread r hr with hopened | hholds
        · exact Or.inl hopened
        · exact Or.inr (hy.holds hholds)

/-- The invariant of a transaction, stage by stage. -/
theorem threadRule (store : Dict → Option Dict) :
    LocalInvariant threadDatabase (threadScript store) (fun _ => True)
      (fun d => OneEach d.conversations) (ThreadStage store) where
  begin _ _ := threadStage_begin _
  query hd hx hscript hanswer := threadStage_query hd hx hscript hanswer
  commit hd hx hscript := by
    obtain ⟨_, _, _, hfilling⟩ := filling_of_commit hx hscript
    rw [hfilling.visible]
    exact hfilling.oneEach hd
  frame _ hx hy hscript hfree := threadStage_frame hx hy hscript hfree

end Stages

/-! ## Runs -/

/-- Any number of calls. -/
abbrev ThreadSessions := Sessions ThreadStore ThreadCall ThreadVersion ThreadQuery
  ThreadQuery.Answer

/-- Any number of calls, in every interleaving of their statements. -/
abbrev threads (store : Dict → Option Dict) :
    Machine ThreadSessions (SessionAction ThreadCall Unit) :=
  transactions threadDatabase (threadScript store)

/-- What the rule keeps. -/
abbrev ThreadsKept (store : Dict → Option Dict) (s : ThreadSessions) : Prop :=
  Invariants threadDatabase (fun d => OneEach d.conversations) (ThreadStage store) s

/-- Rows are of the same thread ever after, and messages stay. -/
structure Grows (d d' : ThreadStore) : Prop where
  holds : ∀ id thread, Holds d.conversations id thread →
    Holds d'.conversations id thread
  messages : d.messages <+: d'.messages

theorem Grows.refl (d : ThreadStore) : Grows d d :=
  ⟨fun _ _ h => h, List.prefix_rfl⟩

theorem Grows.trans {d₁ d₂ d₃ : ThreadStore} (h : Grows d₁ d₂) (h' : Grows d₂ d₃) :
    Grows d₁ d₃ :=
  ⟨fun id thread hd => h'.holds id thread (h.holds id thread hd),
    h.messages.trans h'.messages⟩

section Runs

variable {store : Dict → Option Dict} {s t : ThreadSessions}

theorem threadsKept_init : ThreadsKept store (.init .empty) :=
  invariants_init oneEach_empty

theorem threadsKept_step {a : SessionAction ThreadCall Unit} (hs : ThreadsKept store s)
    (h : (threads store).step s a = some t) : ThreadsKept store t :=
  (threadRule store).step hs (fun _ _ => trivial) h

theorem threadsKept_run {as : List (SessionAction ThreadCall Unit)}
    (hs : ThreadsKept store s) (h : (threads store).exec s as = some t) :
    ThreadsKept store t :=
  (threadRule store).run (fun _ _ _ _ => trivial) hs h

theorem grows_step {a : SessionAction ThreadCall Unit} (hs : ThreadsKept store s)
    (h : (threads store).step s a = some t) : Grows s.committed t.committed := by
  rcases committed_step h with hsame | ⟨x, ⟨n, _, hopen, hscript⟩, hcommitted⟩
  · exact hsame ▸ Grows.refl _
  · obtain ⟨_, _, _, hfilling⟩ := filling_of_commit (hs.each n x hopen) hscript
    rw [hcommitted, hfilling.visible]
    exact ⟨fun _ _ hholds => hfilling.holds hholds, List.prefix_append _ _⟩

theorem grows_run {as : List (SessionAction ThreadCall Unit)}
    (hs : ThreadsKept store s) (h : (threads store).exec s as = some t) :
    Grows s.committed t.committed :=
  Machine.transition (C := fun _ _ => True) (I := ThreadsKept store)
    (R := fun s t => Grows s.committed t.committed) (fun s => Grows.refl s.committed)
    (fun h h' => h.trans h') (fun _ _ _ hs _ h => threadsKept_step hs h)
    (fun _ _ _ hs _ h => grows_step hs h) hs
    (Machine.along_of_split h (fun _ _ _ _ _ _ => trivial)) h

/-- In the run, the transaction of a request commits this message. -/
def Forwarded (store : Dict → Option Dict) (as : List (SessionAction ThreadCall Unit))
    (r : AgentRequest) (u : ChatMessage) : Prop :=
  ∃ pre a post s x, as = pre ++ a :: post ∧
    (threads store).exec (.init .empty) pre = some s ∧ Commits s a x ∧
    x.op.request = some r ∧ ThreadVersion.message (.row u) ∈ x.writes

/-- A forwarded message is there for good, in a conversation of its thread. -/
theorem holds_of_forwarded {as : List (SessionAction ThreadCall Unit)}
    {r : AgentRequest} {u : ChatMessage} (h : Forwarded store as r u)
    (hrun : (threads store).exec (.init .empty) as = some t) :
    u ∈ t.committed.messages ∧
      Holds t.committed.conversations u.conversationId r.thread := by
  obtain ⟨pre, a, post, s, x, rfl, hpre, hcommits, hr, hu⟩ := h
  have hs : ThreadsKept store s := threadsKept_run threadsKept_init hpre
  obtain ⟨s', hs', hrest⟩ := (threads store).exec_append_eq_some.mp hrun
  obtain rfl : s = s' := Option.some.inj (hpre.symm.trans hs')
  obtain ⟨q, hstep, hpost⟩ := (threads store).exec_cons_eq_some.mp hrest
  have hgrows : Grows q.committed t.committed := grows_run (threadsKept_step hs hstep)
    hpost
  have hcommitted := committed_of_commits hcommits hstep
  obtain ⟨n, rfl, hopen, hscript⟩ := hcommits
  obtain ⟨_, conversation, written, hfilling⟩ :=
    filling_of_commit (hs.each n x hopen) hscript
  have hwritten := hfilling.mem_written hu
  rw [hfilling.visible] at hcommitted
  constructor
  · refine hgrows.messages.subset ?_
    rw [hcommitted]
    exact List.mem_append_right _ (List.mem_filterMap.mpr ⟨_, hwritten, rfl⟩)
  · refine hgrows.holds _ _ ?_
    rw [hcommitted, hfilling.into u hwritten]
    exact hfilling.holds_thread hr

end Runs

/-- **One conversation for each thread.**  In every interleaving of any number of
calls, no two conversations share account and external id; a forwarded message is, and
stays, in a conversation of its account and external id; and two forwarded messages
are in one conversation exactly if they have account and external id in common. -/
theorem threads_run (store : Dict → Option Dict)
    (as : List (SessionAction ThreadCall Unit)) (t : ThreadSessions)
    (hrun : (threads store).exec (.init .empty) as = some t) :
    (∀ c ∈ t.committed.conversations, ∀ c' ∈ t.committed.conversations,
      c.externalRef ≠ none → c.thread = c'.thread → c = c') ∧
    (∀ r u, Forwarded store as r u → u ∈ t.committed.messages ∧
      ∃ c ∈ t.committed.conversations, c.id = u.conversationId ∧
        c.userId = r.userId ∧
        c.externalRef = some (strip r.payload.externalConversationId)) ∧
    (∀ r u r' u', Forwarded store as r u → Forwarded store as r' u' →
      (u.conversationId = u'.conversationId ↔
        r.userId = r'.userId ∧
        strip r.payload.externalConversationId =
          strip r'.payload.externalConversationId)) := by
  have hone : OneEach t.committed.conversations :=
    (threadsKept_run threadsKept_init hrun).committed
  have hsame : ∀ c ∈ t.committed.conversations, ∀ c' ∈ t.committed.conversations,
      c.externalRef ≠ none → c.thread = c'.thread → c = c' := by
    intro c hc c' hc' href hthread
    exact Table.eq_of_key_eq hc hc' ((hone c hc).alone c' hc' href hthread.symm).symm
  refine ⟨hsame, fun r u h => ?_, fun r u r' u' h h' => ?_⟩
  · obtain ⟨hmem, c, hc, hid, hthread⟩ := holds_of_forwarded h hrun
    exact ⟨hmem, c, hc, hid, congrArg Prod.fst hthread, congrArg Prod.snd hthread⟩
  · obtain ⟨_, c, hc, hid, hthread⟩ := holds_of_forwarded h hrun
    obtain ⟨_, c', hc', hid', hthread'⟩ := holds_of_forwarded h' hrun
    rw [← hid, ← hid']
    constructor
    · intro hids
      obtain rfl : c = c' := Table.eq_of_key_eq hc hc' hids
      have heq : r.thread = r'.thread := hthread.symm.trans hthread'
      exact ⟨congrArg Prod.fst heq, Option.some.inj (congrArg Prod.snd heq)⟩
    · rintro ⟨huser, href⟩
      have heq : r.thread = r'.thread := by
        unfold AgentRequest.thread AgentRequest.externalRef
        rw [huser, href]
      refine congrArg Conversation.id (hsame c hc c' hc' ?_ ?_)
      · rw [show c.externalRef = some r.externalRef from congrArg Prod.snd hthread]
        simp
      · rw [hthread, hthread', heq]

/-! ## A race for a new thread -/

/-- A first message of the thread `"u-7"`, as two servers receive it. -/
def firstMessage (external : String) (conversationId messageId : Uuid) : AgentRequest where
  userId := 1
  payload := ⟨external, "hello", none⟩
  conversationId := conversationId
  messageId := messageId
  receivedAt := 0

/-- Two first messages of a thread find no conversation.  The first to insert one
commits; the other loses on the index, falls back, and appends.  A third message is of
another thread. -/
def racingForwards : List (SessionAction ThreadCall Unit) :=
  [.begin (.forward (firstMessage "u-7" 10 20)),
    .begin (.forward (firstMessage " u-7 " 11 21)), .query 0 (), .query 1 (),
    .query 0 (), .query 0 (), .query 0 (), .query 0 (), .commit 0,
    .query 1 (), .rollback 1, .begin (.fallBack (firstMessage " u-7 " 11 21)),
    .query 2 (), .query 2 (), .query 2 (), .query 2 (), .commit 2,
    .begin (.forward (firstMessage "u-8" 12 22)), .query 3 (), .query 3 (),
    .query 3 (), .query 3 (), .query 3 (), .commit 3]

/-- The messages at the end of a run, each with its conversation. -/
def placesAfter (as : List (SessionAction ThreadCall Unit)) :
    Option (List (Uuid × Uuid)) :=
  ((threads some).exec (.init .empty) as).map (fun s =>
    s.committed.messages.map (fun u => (u.id, u.conversationId)))

theorem threads_run_racing :
    ∃ t : ThreadSessions,
      (threads some).exec (.init .empty) racingForwards = some t ∧
      t.committed.messages.map (fun u => (u.id, u.conversationId)) =
        [(20, 10), (21, 10), (22, 12)] ∧
      ∃ c ∈ t.committed.conversations, c.id = 10 ∧ c.userId = 1 ∧
        c.externalRef = some (strip " u-7 ") := by
  have hplaces : placesAfter racingForwards = some [(20, 10), (21, 10), (22, 12)] := by
    decide +kernel
  obtain ⟨t, ht, heq⟩ := Option.map_eq_some_iff.mp hplaces
  let late := firstMessage " u-7 " 11 21
  let u : ChatMessage := (late.message 10).rowAt 2 (late.message 10).content
  -- the second of the two, in the transaction it falls back to
  have hforwarded : Forwarded some racingForwards late u :=
    ⟨racingForwards.take 16, .commit 2, racingForwards.drop 17, _, _, rfl, rfl,
      ⟨2, rfl, rfl, rfl⟩, rfl, List.mem_cons_of_mem _ List.mem_cons_self⟩
  exact ⟨t, ht, heq, ((threads_run some racingForwards t ht).2.1 late u hforwarded).2⟩

end Imagin4.Ports
