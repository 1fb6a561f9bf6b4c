import Imagin4.Verified.Transactions
import Imagin4.Ports.SmartMessages

/-!
# The transactions of `_append_message`

`_append_message` of `app/api/v1/conversations.py` statement by statement, as a
script over a READ COMMITTED database.  It looks for a row with its
`client_message_id`, locks the row of the conversation, reads the next
`sequence_no`, and inserts.  The lock is held until the transaction ends, so nothing
is committed to the conversation between the read and the commit; that a row with
the same `client_message_id` has come in before the lock is found by the unique
index, and the rollback gives the number back.

## Main results

* `alone_appendScript` — a call nothing comes between is `appendMessage`.
* `appendRule` — the invariant of a call, stage by stage.
* `messageNos_run` — the rows of every conversation, after any number of calls.
-/

namespace Imagin4.Ports

open Imagin4.Verified

/-! ## Rows and locks -/

/-- The rows of a conversation. -/
def ofConversation (conversationId : Uuid) (messages : List ChatMessage) :
    List ChatMessage :=
  messages.filter (fun u => u.conversationId = conversationId)

/-- `SELECT coalesce(max(sequence_no), 0) + 1 … WHERE conversation_id = :id`. -/
def nextMessageNo (conversationId : Uuid) (messages : List ChatMessage) : Nat :=
  ((ofConversation conversationId messages).map ChatMessage.sequenceNo).foldr
    max 0 + 1

/-- The row that `_append_message` adds. -/
def NewMessage.rowAt (new : NewMessage) (sequenceNo : Nat) (content : Dict) :
    ChatMessage where
  id := new.id
  conversationId := new.conversationId
  role := new.role
  sequenceNo := sequenceNo
  clientMessageId := new.clientMessageId
  content := content
  status := "complete"
  createdAt := new.createdAt

/-- What a transaction has written: the lock of a conversation, or a message. -/
inductive MessageVersion where
  | lock (conversationId : Uuid)
  | row (u : ChatMessage)

/-- What a transaction holds until it ends. -/
inductive MessageKey where
  | conversation (id : Uuid)
  | message (id : Uuid)
  | sequence (conversationId : Uuid) (sequenceNo : Nat)
  | client (conversationId : Uuid) (clientMessageId : Option String)
deriving DecidableEq

namespace MessageVersion

/-- The locks that come with a write.  The index on `client_message_id` is partial:
a null makes no entry. -/
def locks : MessageVersion → List MessageKey
  | lock conversationId => [.conversation conversationId]
  | row u =>
      [.message u.id, .sequence u.conversationId u.sequenceNo] ++
        if u.clientMessageId.isSome then
          [.client u.conversationId u.clientMessageId]
        else []

/-- Installs a write. -/
def put : MessageVersion → List ChatMessage → List ChatMessage
  | lock _, messages => messages
  | row u, messages => messages ++ [u]

end MessageVersion

/-! ## Statements -/

/-- The statements of `_append_message`. -/
inductive MessageQuery where
  /-- `SELECT … WHERE conversation_id = :id AND client_message_id = :client_id` -/
  | find (conversationId : Uuid) (clientMessageId : String)
  /-- `SELECT id FROM conversations WHERE id = :id FOR UPDATE` -/
  | lockConversation (conversationId : Uuid)
  /-- `SELECT coalesce(max(sequence_no), 0) + 1 …` -/
  | nextSequenceNo (conversationId : Uuid)
  /-- the `INSERT` that the commit flushes; `false` is an `IntegrityError` -/
  | insert (u : ChatMessage)

/-- What a statement answers. -/
@[reducible] def MessageQuery.Answer : MessageQuery → Type
  | find _ _ => Option ChatMessage
  | lockConversation _ => Unit
  | nextSequenceNo _ => Nat
  | insert _ => Bool

/-- The effect of a statement. -/
def messageAnswer : (q : MessageQuery) → Unit → (MessageKey → Bool) →
    List ChatMessage → Option (List MessageVersion × q.Answer)
  | .find conversationId clientMessageId, _, _, messages =>
      some ([], messageOf conversationId clientMessageId messages)
  | .lockConversation conversationId, _, held, _ =>
      if held (.conversation conversationId) then none
      else some ([.lock conversationId], ())
  | .nextSequenceNo conversationId, _, _, messages =>
      some ([], nextMessageNo conversationId messages)
  | .insert u, _, held, messages =>
      if messages.any u.conflicts then some ([], false)
      else if (MessageVersion.row u).locks.any held then none
      else some ([.row u], true)

theorem messageAnswer_respects {q : MessageQuery} {h : Unit}
    {held : MessageKey → Bool} {messages : List ChatMessage}
    {vs : List MessageVersion} {r : q.Answer}
    (hanswer : messageAnswer q h held messages = some (vs, r)) :
    ∀ v ∈ vs, ∀ k ∈ v.locks, held k = false := by
  intro v hv k hk
  cases q with
  | find conversationId clientMessageId =>
      cases hanswer
      cases hv
  | nextSequenceNo conversationId =>
      cases hanswer
      cases hv
  | lockConversation conversationId =>
      simp only [messageAnswer] at hanswer
      split at hanswer
      · cases hanswer
      · rename_i hfree
        cases hanswer
        obtain rfl := List.mem_singleton.mp hv
        obtain rfl := List.mem_singleton.mp hk
        exact Bool.eq_false_iff.mpr hfree
  | insert u =>
      simp only [messageAnswer] at hanswer
      split at hanswer
      · cases hanswer
        cases hv
      · split at hanswer
        · cases hanswer
        · rename_i hfree
          cases hanswer
          obtain rfl := List.mem_singleton.mp hv
          rw [Bool.not_eq_true, List.any_eq_false] at hfree
          exact Bool.eq_false_iff.mpr (hfree k hk)

/-- The messages, with their unique indexes and row locks. -/
def messageDatabase : Database (List ChatMessage) MessageVersion MessageKey Unit
    MessageQuery MessageQuery.Answer where
  put := MessageVersion.put
  locks := MessageVersion.locks
  answer := messageAnswer
  respects := messageAnswer_respects

/-! ## Scripts -/

/-- A call, or its second look for the message after an `IntegrityError`, which is
made in a transaction of its own. -/
inductive AppendCall where
  | append (new : NewMessage)
  | lookAgain (new : NewMessage)

section Scripts

variable (store : Dict → Option Dict)

/-- The insertion under the number that was read.  A content the column cannot
hold raises. -/
def insertScript (new : NewMessage) (sequenceNo : Nat) :
    Script MessageQuery MessageQuery.Answer :=
  match store new.content with
  | none => .rollback
  | some content =>
      .query (.insert (new.rowAt sequenceNo content))
        (fun inserted => if inserted then .commit else .rollback)

/-- From the lock on. -/
def lockedScript (new : NewMessage) : Script MessageQuery MessageQuery.Answer :=
  .query (.nextSequenceNo new.conversationId) (insertScript store new)

/-- From the end of the lookup on. -/
def lockScript (new : NewMessage) : Script MessageQuery MessageQuery.Answer :=
  .query (.lockConversation new.conversationId) (fun _ => lockedScript store new)

/-- `_append_message`.  A call that only reads ends with its session. -/
def appendScript : AppendCall → Script MessageQuery MessageQuery.Answer
  | .append new =>
      match new.clientMessageId with
      | none => lockScript store new
      | some clientMessageId =>
          if clientMessageId = "" then lockScript store new
          else .query (.find new.conversationId clientMessageId)
            (fun existing =>
              match existing with
              | some _ => .rollback
              | none => lockScript store new)
  | .lookAgain new =>
      match new.clientMessageId with
      | none => .rollback
      | some clientMessageId =>
          if clientMessageId = "" then .rollback
          else .query (.find new.conversationId clientMessageId) (fun _ => .rollback)

/-- An insertion that nobody else is making. -/
theorem answer_insert_alone (u : ChatMessage) (messages : List ChatMessage) :
    messageDatabase.answer (.insert u) () (fun _ => false) messages =
      if messages.any u.conflicts then some ([], false)
      else some ([.row u], true) := by
  have hfree : (MessageVersion.row u).locks.any (fun _ => false) = false :=
    List.any_eq_false.mpr (fun _ _ => by simp)
  show (if messages.any u.conflicts then some ([], false)
    else if (MessageVersion.row u).locks.any (fun _ => false) then none
    else some ([MessageVersion.row u], true)) = _
  rw [hfree]
  rfl

/-- A call nothing comes between does what `appendMessage` says. -/
theorem alone_appendScript (new : NewMessage) (messages : List ChatMessage) :
    messageDatabase.alone () (appendScript store (.append new)) messages messages =
      (appendMessage store new messages).2 := by
  have hlock : messageDatabase.alone () (lockScript store new) messages messages =
      (insertMessage store new messages).2 := by
    show messageDatabase.alone () (insertScript store new
      (nextMessageNo new.conversationId messages)) messages messages = _
    unfold insertScript insertMessage
    cases store new.content with
    | none => rfl
    | some content =>
        have hrow : new.rowAt (nextMessageNo new.conversationId messages) content =
            new.row content messages := rfl
        dsimp only
        rw [hrow, Database.alone, answer_insert_alone]
        cases messages.any (new.row content messages).conflicts with
        | true => cases replayed new messages <;> rfl
        | false => rfl
  cases hclient : new.clientMessageId with
  | none =>
      simp only [appendScript, appendMessage, replayed, hclient]
      exact hlock
  | some clientMessageId =>
      simp only [appendScript, appendMessage, replayed, hclient]
      by_cases hempty : clientMessageId = ""
      · rw [if_pos hempty, if_pos hempty]
        exact hlock
      · rw [if_neg hempty, if_neg hempty]
        have hanswer : messageDatabase.answer
            (.find new.conversationId clientMessageId) () (fun _ => false) messages =
            some ([], messageOf new.conversationId clientMessageId messages) := rfl
        rw [Database.alone, hanswer]
        dsimp only [Database.putAll_nil]
        cases messageOf new.conversationId clientMessageId messages with
        | some existing => rfl
        | none => exact hlock

end Scripts

/-! ## The law -/

/-- The row has this `client_message_id`, in this conversation. -/
def hasClientId (conversationId : Uuid) (clientMessageId : String)
    (u : ChatMessage) : Bool :=
  u.conversationId = conversationId && u.clientMessageId = some clientMessageId

/-- The rows of every conversation are numbered from 1 in the order of their
commits, and no two have a `client_message_id` in common. -/
structure Numbered (messages : List ChatMessage) : Prop where
  sequence : ∀ conversationId,
    (ofConversation conversationId messages).map ChatMessage.sequenceNo =
      List.range' 1 (ofConversation conversationId messages).length
  client : ∀ conversationId clientMessageId,
    messages.countP (hasClientId conversationId clientMessageId) ≤ 1

theorem numbered_nil : Numbered [] := ⟨fun _ => rfl, fun _ _ => Nat.zero_le _⟩

theorem ofConversation_concat (conversationId : Uuid) (messages : List ChatMessage)
    (u : ChatMessage) :
    ofConversation conversationId (messages ++ [u]) =
      if u.conversationId = conversationId then
        ofConversation conversationId messages ++ [u]
      else ofConversation conversationId messages := by
  unfold ofConversation
  rw [List.filter_append]
  by_cases h : u.conversationId = conversationId <;> simp [h]

theorem foldr_max_range' (n : Nat) :
    ∀ s, (List.range' s (n + 1)).foldr max 0 = s + n := by
  induction n with
  | zero =>
      intro s
      simp
  | succ n ih =>
      intro s
      rw [List.range'_succ, List.foldr_cons, ih]
      omega

variable {messages : List ChatMessage}

/-- The next number is the number of rows and one. -/
theorem nextMessageNo_of_numbered (h : Numbered messages) (conversationId : Uuid) :
    nextMessageNo conversationId messages =
      (ofConversation conversationId messages).length + 1 := by
  unfold nextMessageNo
  rw [h.sequence]
  cases (ofConversation conversationId messages).length with
  | zero => rfl
  | succ n =>
      rw [foldr_max_range']
      omega

/-- A row under the next number keeps the law. -/
theorem Numbered.concat (h : Numbered messages) {u : ChatMessage}
    (hnext : u.sequenceNo = nextMessageNo u.conversationId messages)
    (hclient : ∀ k, u.clientMessageId = some k →
      messages.countP (hasClientId u.conversationId k) = 0) :
    Numbered (messages ++ [u]) := by
  constructor
  · intro conversationId
    rw [ofConversation_concat]
    by_cases hconv : u.conversationId = conversationId
    · have hnumber : u.sequenceNo =
          1 + (ofConversation conversationId messages).length := by
        rw [hnext, nextMessageNo_of_numbered h, hconv]
        omega
      rw [if_pos hconv, List.map_append, h.sequence, List.map_singleton, hnumber,
        List.length_append, List.length_singleton, List.range'_1_concat]
    · rw [if_neg hconv]
      exact h.sequence conversationId
  · intro conversationId clientMessageId
    have hle := h.client conversationId clientMessageId
    rw [List.countP_append, List.countP_singleton]
    by_cases hu : hasClientId conversationId clientMessageId u = true
    · have hu' := hu
      simp only [hasClientId, Bool.and_eq_true, decide_eq_true_eq] at hu'
      obtain ⟨rfl, hsome⟩ := hu'
      rw [if_pos hu, hclient clientMessageId hsome]
    · rw [if_neg hu]
      exact hle

/-! ## Stages -/

section Stages

variable (store : Dict → Option Dict)

/-- A call that is under way. -/
abbrev AppendTx := Tx AppendCall MessageVersion MessageQuery MessageQuery.Answer

/-- What is left of a call that has not locked its conversation. -/
inductive Unlocked : Script MessageQuery MessageQuery.Answer → Prop
  | rollback : Unlocked .rollback
  | lock (new : NewMessage) : Unlocked (lockScript store new)
  | find (conversationId : Uuid) (clientMessageId : String)
      (next : Option ChatMessage → Script MessageQuery MessageQuery.Answer)
      (hnext : ∀ existing, next existing = .rollback ∨
        ∃ new, next existing = lockScript store new) :
      Unlocked (.query (.find conversationId clientMessageId) next)

/-- How far a call has come, and what it may rely on there. -/
inductive Stage (messages : List ChatMessage) (x : AppendTx) : Prop
  | unlocked (hwrites : x.writes = []) (hscript : Unlocked store x.script)
  | locked (new : NewMessage) (hwrites : x.writes = [.lock new.conversationId])
      (hscript : x.script = lockedScript store new)
  | numbered (new : NewMessage) (content : Dict) (sequenceNo : Nat)
      (hwrites : x.writes = [.lock new.conversationId])
      (hscript : x.script = .query (.insert (new.rowAt sequenceNo content))
        (fun inserted => if inserted then .commit else .rollback))
      (hnext : sequenceNo = nextMessageNo new.conversationId messages)
  | inserted (u : ChatMessage) (hwrites : x.writes = [.lock u.conversationId, .row u])
      (hscript : x.script = .commit)
      (hnext : u.sequenceNo = nextMessageNo u.conversationId messages)
      (hclient : ∀ k, u.clientMessageId = some k →
        messages.countP (hasClientId u.conversationId k) = 0)
  | leaving (conversationId : Uuid) (hwrites : x.writes = [.lock conversationId])
      (hscript : x.script = .rollback)

variable {store} {x y : AppendTx}

theorem visible_locked {conversationId : Uuid}
    (hwrites : x.writes = [.lock conversationId]) :
    x.visible messageDatabase messages = messages := by
  unfold Tx.visible
  rw [hwrites]
  rfl

theorem visible_inserted {u : ChatMessage}
    (hwrites : x.writes = [.lock u.conversationId, .row u]) :
    x.visible messageDatabase messages = messages ++ [u] := by
  unfold Tx.visible
  rw [hwrites]
  rfl

/-- A row that conflicts with no other has a `client_message_id` of its own. -/
theorem countP_of_not_conflicts {u : ChatMessage}
    (h : messages.any u.conflicts = false) (k : String)
    (hk : u.clientMessageId = some k) :
    messages.countP (hasClientId u.conversationId k) = 0 := by
  refine List.countP_eq_zero.mpr (fun v hv hhas => ?_)
  have hno := List.any_eq_false.mp h v hv
  simp only [hasClientId, Bool.and_eq_true, decide_eq_true_eq] at hhas
  refine hno ?_
  simp [ChatMessage.conflicts, hk, hhas.1, hhas.2]

/-- A call begins without a lock. -/
theorem stage_begin (op : AppendCall) :
    Stage store messages ⟨op, appendScript store op, [], false⟩ := by
  refine .unlocked rfl ?_
  show Unlocked store (appendScript store op)
  unfold appendScript
  cases op with
  | append new =>
      dsimp only
      split
      · exact .lock new
      · split
        · exact .lock new
        · refine .find _ _ _ (fun existing => ?_)
          cases existing with
          | some u => exact Or.inl rfl
          | none => exact Or.inr ⟨new, rfl⟩
  | lookAgain new =>
      dsimp only
      split
      · exact .rollback
      · split
        · exact .rollback
        · exact .find _ _ _ (fun _ => Or.inl rfl)

/-- A statement takes a call to its next stage. -/
theorem stage_query {q : MessageQuery}
    {next : q.Answer → Script MessageQuery MessageQuery.Answer} {hint : Unit}
    {held : MessageKey → Bool} {vs : List MessageVersion} {r : q.Answer}
    (hx : Stage store messages x) (hscript : x.script = .query q next)
    (hanswer : messageDatabase.answer q hint held
      (x.visible messageDatabase messages) = some (vs, r)) :
    Stage store messages (x.next vs (next r)) := by
  cases hx with
  | unlocked hwrites hreads =>
      rw [hscript] at hreads
      cases hreads with
      | lock new =>
          replace hanswer : messageAnswer (.lockConversation new.conversationId) hint
            held (x.visible messageDatabase messages) = some (vs, r) := hanswer
          simp only [messageAnswer] at hanswer
          split at hanswer
          · cases hanswer
          · cases hanswer
            refine .locked new ?_ rfl
            show x.writes ++ _ = _
            rw [hwrites]
            rfl
      | find conversationId clientMessageId next hnext =>
          cases hanswer
          have hkeep : (x.next [] (next (messageOf conversationId clientMessageId
              (x.visible messageDatabase messages)))).writes = [] := by
            show x.writes ++ [] = []
            rw [hwrites]
            rfl
          refine .unlocked hkeep ?_
          rcases hnext (messageOf conversationId clientMessageId
            (x.visible messageDatabase messages)) with hend | ⟨new, hlock⟩
          · show Unlocked store (next _)
            rw [hend]
            exact .rollback
          · show Unlocked store (next _)
            rw [hlock]
            exact .lock new
  | locked new hwrites hlocked =>
      rw [hscript] at hlocked
      cases hlocked
      cases hanswer
      have hkeep : x.writes ++ [] = [.lock new.conversationId] := by
        rw [hwrites]
        rfl
      rw [visible_locked hwrites]
      cases hstore : store new.content with
      | none =>
          refine .leaving new.conversationId hkeep ?_
          simp [Tx.next, insertScript, hstore]
      | some content =>
          refine .numbered new content _ hkeep ?_ rfl
          simp [Tx.next, insertScript, hstore]
  | numbered new content sequenceNo hwrites hinsert hnext =>
      rw [hscript] at hinsert
      cases hinsert
      rw [visible_locked hwrites] at hanswer
      replace hanswer : messageAnswer (.insert (new.rowAt sequenceNo content)) hint
        held messages = some (vs, r) := hanswer
      simp only [messageAnswer] at hanswer
      split at hanswer
      · cases hanswer
        refine .leaving new.conversationId ?_ rfl
        show x.writes ++ [] = _
        rw [hwrites]
        rfl
      · rename_i hany
        split at hanswer
        · cases hanswer
        · cases hanswer
          refine .inserted (new.rowAt sequenceNo content) ?_ rfl hnext ?_
          · show x.writes ++ _ = _
            rw [hwrites]
            rfl
          · exact countP_of_not_conflicts (Bool.eq_false_iff.mpr hany)
  | inserted u hwrites hcommit =>
      rw [hscript] at hcommit
      cases hcommit
  | leaving conversationId hwrites hend =>
      rw [hscript] at hend
      cases hend

/-- What is committed is a row. -/
theorem inserted_of_commit (hx : Stage store messages x)
    (hscript : x.script = .commit) :
    ∃ u : ChatMessage, x.writes = [.lock u.conversationId, .row u] ∧
      u.sequenceNo = nextMessageNo u.conversationId messages ∧
      ∀ k, u.clientMessageId = some k →
        messages.countP (hasClientId u.conversationId k) = 0 := by
  cases hx with
  | unlocked _ hreads =>
      rw [hscript] at hreads
      cases hreads
  | locked new _ hlocked =>
      rw [hscript] at hlocked
      cases hlocked
  | numbered new content sequenceNo _ hinsert =>
      rw [hscript] at hinsert
      cases hinsert
  | inserted u hwrites _ hnext hclient => exact ⟨u, hwrites, hnext, hclient⟩
  | leaving _ _ hend =>
      rw [hscript] at hend
      cases hend

/-- A row of another conversation changes neither the next number nor who has a
`client_message_id`. -/
theorem nextMessageNo_concat {conversationId : Uuid} {u : ChatMessage}
    (h : u.conversationId ≠ conversationId) :
    nextMessageNo conversationId (messages ++ [u]) =
      nextMessageNo conversationId messages := by
  unfold nextMessageNo
  rw [ofConversation_concat, if_neg h]

theorem countP_concat {conversationId : Uuid} {u : ChatMessage}
    (h : u.conversationId ≠ conversationId) (k : String) :
    (messages ++ [u]).countP (hasClientId conversationId k) =
      messages.countP (hasClientId conversationId k) := by
  rw [List.countP_append, List.countP_singleton, if_neg (by simp [hasClientId, h]),
    Nat.add_zero]

/-- While a call holds the lock of its conversation, nothing is committed there. -/
theorem stage_frame (hx : Stage store messages x) (hy : Stage store messages y)
    (hscript : y.script = .commit)
    (hfree : ∀ k ∈ x.locks messageDatabase, k ∉ y.locks messageDatabase) :
    Stage store (y.visible messageDatabase messages) x := by
  obtain ⟨u, hwrites, _, _⟩ := inserted_of_commit hy hscript
  rw [visible_inserted hwrites]
  have hlocks : MessageKey.conversation u.conversationId ∈
      y.locks messageDatabase := by
    unfold Tx.locks
    rw [hwrites]
    exact List.mem_cons_self
  have hother : ∀ {conversationId : Uuid} {vs : List MessageVersion},
      x.writes = .lock conversationId :: vs → u.conversationId ≠ conversationId := by
    rintro conversationId vs hx rfl
    refine hfree (.conversation u.conversationId) ?_ hlocks
    unfold Tx.locks
    rw [hx]
    exact List.mem_cons_self
  cases hx with
  | unlocked hx hreads => exact .unlocked hx hreads
  | locked new hx hlocked => exact .locked new hx hlocked
  | numbered new content sequenceNo hx hinsert hnext =>
      refine .numbered new content sequenceNo hx hinsert ?_
      rw [nextMessageNo_concat (hother hx)]
      exact hnext
  | inserted v hx hcommit hnext hclient =>
      refine .inserted v hx hcommit ?_ (fun k hk => ?_)
      · rw [nextMessageNo_concat (hother hx)]
        exact hnext
      · rw [countP_concat (hother hx)]
        exact hclient k hk
  | leaving conversationId hx hend => exact .leaving conversationId hx hend

/-- The invariant of a call, stage by stage. -/
theorem appendRule (store : Dict → Option Dict) :
    LocalInvariant messageDatabase (appendScript store) (fun _ => True) Numbered
      (Stage store) where
  begin _ _ := stage_begin _
  query _ hx hscript hanswer := stage_query hx hscript hanswer
  commit hd hx hscript := by
    obtain ⟨u, hwrites, hnext, hclient⟩ := inserted_of_commit hx hscript
    rw [visible_inserted hwrites]
    exact hd.concat hnext hclient
  frame _ hx hy hscript hfree := stage_frame hx hy hscript hfree

end Stages

/-! ## Runs -/

/-- Any number of calls. -/
abbrev AppendSessions := Sessions (List ChatMessage) AppendCall MessageVersion
  MessageQuery MessageQuery.Answer

/-- Any number of calls, in every interleaving of their statements. -/
abbrev appends (store : Dict → Option Dict) :
    Machine AppendSessions (SessionAction AppendCall Unit) :=
  transactions messageDatabase (appendScript store)

/-- What the rule keeps. -/
abbrev AppendsKept (store : Dict → Option Dict) (s : AppendSessions) : Prop :=
  Invariants messageDatabase Numbered (Stage store) s

/-- A commit adds its row after all others. -/
theorem prefix_step {store : Dict → Option Dict} {s t : AppendSessions}
    {a : SessionAction AppendCall Unit} (hs : AppendsKept store s)
    (h : (appends store).step s a = some t) : s.committed <+: t.committed := by
  rcases committed_step h with hsame | ⟨x, ⟨n, _, hopen, hscript⟩, hcommitted⟩
  · exact hsame ▸ List.prefix_rfl
  · obtain ⟨u, hwrites, _, _⟩ := inserted_of_commit (hs.each n x hopen) hscript
    rw [hcommitted, visible_inserted hwrites]
    exact List.prefix_append _ _

/-- In every interleaving of any number of calls, the committed rows of each
conversation are numbered from 1 without a gap in the order of their commits, no two
have a `client_message_id` in common, and a row that is committed stays where it
is. -/
theorem messageNos_run (store : Dict → Option Dict)
    (pre post : List (SessionAction AppendCall Unit)) (s t : AppendSessions)
    (hpre : (appends store).exec (.init []) pre = some s)
    (hpost : (appends store).exec s post = some t) :
    Numbered s.committed ∧ Numbered t.committed ∧ s.committed <+: t.committed := by
  have hbegin : ∀ (as : List (SessionAction AppendCall Unit)), ∀ a ∈ as,
      BeginsAllowed (fun _ => True) a := fun _ _ _ _ _ => trivial
  have hs : AppendsKept store s :=
    (appendRule store).run (hbegin pre) (invariants_init numbered_nil) hpre
  have ht : AppendsKept store t := (appendRule store).run (hbegin post) hs hpost
  refine ⟨hs.committed, ht.committed, ?_⟩
  exact Machine.transition (C := fun _ _ => True) (I := AppendsKept store)
    (R := fun s t => s.committed <+: t.committed) (fun _ => List.prefix_rfl)
    (fun h h' => h.trans h')
    (fun _ _ _ hs _ h => (appendRule store).step hs (fun _ _ => trivial) h)
    (fun _ _ _ hs _ h => prefix_step hs h) hs
    (Machine.along_of_split hpost (fun _ _ _ _ _ _ => trivial)) hpost

/-! ## Two calls that overlap -/

/-- A message of the user. -/
def userMessage (id : Uuid) (clientMessageId : Option String) : NewMessage where
  id := id
  conversationId := 1
  role := "user"
  content := Dict.empty
  clientMessageId := clientMessageId
  createdAt := 0

/-- Two calls send the same message, and look for it before either has the lock;
a third sends another one. -/
def overlappingAppends : List (SessionAction AppendCall Unit) :=
  [.begin (.append (userMessage 10 (some "a"))),
    .begin (.append (userMessage 11 (some "a"))), .query 0 (), .query 1 (),
    .query 0 (), .query 0 (), .query 0 (), .commit 0, .query 1 (), .query 1 (),
    .query 1 (), .rollback 1, .begin (.append (userMessage 12 (some "b"))),
    .query 2 (), .query 2 (), .query 2 (), .query 2 (), .commit 2]

/-- The rows at the end of a run. -/
def rowsAfter (as : List (SessionAction AppendCall Unit)) :
    Option (List (Uuid × Nat)) :=
  ((appends some).exec (.init []) as).map (fun s =>
    s.committed.map (fun u => (u.id, u.sequenceNo)))

theorem messageNos_run_overlapping :
    ∃ t : AppendSessions, (appends some).exec (.init []) overlappingAppends = some t ∧
      t.committed.map (fun u => (u.id, u.sequenceNo)) = [(10, 1), (12, 2)] ∧
      Numbered t.committed := by
  have hrows : rowsAfter overlappingAppends = some [(10, 1), (12, 2)] := by decide +kernel
  obtain ⟨t, ht, heq⟩ := Option.map_eq_some_iff.mp hrows
  exact ⟨t, ht, heq, (messageNos_run some [] overlappingAppends _ t rfl ht).2.1⟩

end Imagin4.Ports
