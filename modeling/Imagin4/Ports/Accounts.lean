import Imagin4.Ports.AuthSessions

/-!
# Accounts

The whole of `app/api/v1/auth.py`: registration, login, refresh, logout and logout-all,
with `get_current_user` of `app/api/deps.py`, which also takes API keys.  Any number of
requests may be under way; each reads who is calling, and writes in one transaction later.

The state keeps what has been handed out so far, and to whom on what grounds.  Nothing in
the code reads that; it is what authenticity is about.

## Main results

* `tokens_run` — whoever is let in holds a valid API key, or a token that was handed out
  for a password, a registration, or what had been earned before; and what has been ended
  lets nobody in.
* `accounts_run` — no two accounts share an address, and whoever has registered can log in.
-/

namespace Imagin4.Ports

open Imagin4.Verified

/-! ## Callers -/

/-- A row of `api_keys`. -/
structure ApiKeyRow where
  userId : Uuid
  keyHash : String
  revokedAt : Option DateTime
deriving DecidableEq

/-- `api_keys`, by the unique `key_hash`. -/
abbrev ApiKeyTable := Table ApiKeyRow.keyHash

/-- What registration takes from elsewhere as well: Argon2's hash, with the salt it
draws. -/
structure AccountHost extends AuthHost where
  hashPassword : (salt : Nat) → String → String

/-- The `Authorization` header of a request, and where its session token is. -/
structure Caller where
  authorization : Option String
  token : Credentials

/-- `KEY_PREFIX`. -/
def keyPrefix : String := "imgn_"

/-- The bearer value of a request, if that is an API key. -/
def Caller.apiKey (c : Caller) : Option String :=
  match c.authorization with
  | none => none
  | some value =>
      if "Bearer ".toList.isPrefixOf value.toList then
        let raw := strip (String.ofList (value.toList.drop "Bearer ".length))
        if keyPrefix.toList.isPrefixOf raw.toList then some raw else none
      else none

/-- What somebody is let in for, or given a token for. -/
inductive Grounds where
  | password (password : String)
  | registration (email password : String)
  | token (raw : String)
  | apiKey (raw : String)
deriving DecidableEq

section Callers

variable (host : AccountHost) (keys : ApiKeyTable) (users : UserTable)

/-- `_resolve_api_key_user`. -/
def resolveApiKeyUser (rawKey : String) : Option UserRow :=
  match keys.find? (host.sha256 rawKey) with
  | none => none
  | some key =>
      if key.revokedAt.isNone then
        match users.find? key.userId with
        | none => none
        | some user => if user.status = "active" then some user else none
      else none

/-- `get_current_user`, with the grounds it has found. -/
def getCurrentUser (sessions : SessionTable) (caller : Caller) (now : DateTime) :
    Except RouterError (UserRow × Grounds) :=
  match caller.apiKey with
  | some raw =>
      match resolveApiKeyUser host keys users raw with
      | none => .error (.http 401 "invalid api key")
      | some user => .ok (user, .apiKey raw)
  | none =>
      (currentSession host.toAuthHost users sessions caller.token now).map
        (fun r => (r.2, .token (caller.token.rawToken.getD "")))

end Callers

/-! ## Requests -/

/-- The requests. -/
inductive AccountRequest where
  | register (email password : String)
  | login (email password : String)
  | refresh (caller : Caller)
  | logout (caller : Caller)
  | logoutAll (caller : Caller)

/-- What a request that has been let in is going to write; for whom and on what
grounds. -/
inductive AccountWrite where
  | register (email password : String)
  | login (user : UserRow) (password : String)
  | refresh (user : UserRow) (c : Credentials) (grounds : Grounds)
  | logout (c : Credentials)
  | logoutAll (user : UserRow)

/-- The read of a request.  A registration looks whether the address is free, and then at
the length of the password. -/
def readAccount (host : AccountHost) (keys : ApiKeyTable) (users : UserTable)
    (sessions : SessionTable) (now : DateTime) :
    AccountRequest → Except RouterError AccountWrite
  | .register email password =>
      if users.rows.any (fun user => host.sameEmail user.email email) then
        .error (.http 409 "email already registered")
      else if password.length < 8 then
        .error (.http 400 "password must be at least 8 characters")
      else .ok (.register email password)
  | .login email password =>
      (loginUser host.toAuthHost users email password).map (fun user => .login user password)
  | .refresh caller =>
      (getCurrentUser host keys users sessions caller now).map
        (fun r => .refresh r.1 caller.token r.2)
  | .logout caller =>
      (getCurrentUser host keys users sessions caller now).map
        (fun _ => .logout caller.token)
  | .logoutAll caller =>
      (getCurrentUser host keys users sessions caller now).map (fun r => .logoutAll r.1)

/-! ## Writes -/

/-- What a write draws; a registration also a user id and a salt. -/
structure AccountDraw extends AuthDraw where
  userId : Uuid
  salt : Nat

/-- A token that has been handed out. -/
structure Handed where
  raw : String
  userId : Uuid
  grounds : Grounds
  issuedAt : DateTime
deriving DecidableEq

/-- The user that a registration inserts. -/
def newUser (host : AccountHost) (email password : String) (d : AccountDraw) : UserRow where
  id := d.userId
  email := email
  passwordHash := some (host.hashPassword d.salt password)
  status := "active"

/-- The `INSERT` of a user; `none` is its `IntegrityError`, of the primary key or of the
address. -/
def insertUser (host : AccountHost) (user : UserRow) (users : UserTable) :
    Option UserTable :=
  if (users.find? user.id).isSome ||
      users.rows.any (fun other => host.sameEmail other.email user.email) then none
  else some (users.put user)

/-- `_issue_session`, and the token it gives back. -/
def handOut (host : AccountHost) (user : UserRow) (grounds : Grounds) (commits : Nat)
    (d : AccountDraw) (sessions : SessionTable) : Option (SessionTable × Handed) :=
  (insertSession (issueSession host.toAuthHost user commits d.toAuthDraw) sessions).map
    (fun t => (t, ⟨d.rawToken, user.id, grounds, d.issuedAt⟩))

/-- The tables, and the tokens a write hands out. -/
structure Written where
  users : UserTable
  sessions : SessionTable
  handed : List Handed

/-- The write of a request, after `commits` others. -/
def AccountWrite.apply (host : AccountHost) (commits : Nat) (d : AccountDraw)
    (users : UserTable) (sessions : SessionTable) : AccountWrite → Option Written
  | register email password => do
      let user := newUser host email password d
      let users ← insertUser host user users
      let (sessions, handed) ← handOut host user (.registration email password) commits d
        sessions
      return ⟨users, sessions, [handed]⟩
  | login user password => do
      let (sessions, handed) ← handOut host user (.password password) commits d sessions
      return ⟨users, sessions, [handed]⟩
  | refresh user c grounds => do
      let (sessions, handed) ← handOut host user grounds commits d
        (revokeToken host.toAuthHost c d.now sessions)
      return ⟨users, sessions, [handed]⟩
  | logout c => some ⟨users, revokeToken host.toAuthHost c d.now sessions, []⟩
  | logoutAll user => some ⟨users, revokeAll user.id d.now sessions, []⟩

/-- The sessions that a write ends, by their hashes. -/
def AccountWrite.ends (host : AccountHost) (sessions : SessionTable) :
    AccountWrite → List String
  | register _ _ => []
  | login _ _ => []
  | refresh _ c _ => tokenOf c
  | logout c => tokenOf c
  | logoutAll user =>
      (sessions.rows.filter (fun row => row.userId = user.id)).map AuthSession.tokenHash
where
  /-- The session of a token, if there is one. -/
  tokenOf (c : Credentials) : List String :=
    match c.rawToken with
    | none => []
    | some raw =>
        if (sessions.find? (host.sha256 raw)).isSome then [host.sha256 raw] else []

/-! ## Runs -/

/-- The tables and the requests under way, and what has been handed out and ended. -/
structure AccountState where
  users : UserTable
  sessions : SessionTable
  pending : List AccountWrite
  commits : Nat
  handed : List Handed
  ended : List String

/-- Before the first request. -/
def AccountState.init (users : UserTable) : AccountState := ⟨users, .empty, [], 0, [], []⟩

/-- A request comes in at some time, commits, or goes away. -/
inductive AccountAction where
  | read (request : AccountRequest) (now : DateTime)
  | commit (i : Nat) (d : AccountDraw)
  | abort (i : Nat)

/-- The commit of a request under way; one that raises is rolled back. -/
def AccountState.commit (host : AccountHost) (s : AccountState) (i : Nat) (d : AccountDraw)
    (w : AccountWrite) : AccountState :=
  match w.apply host s.commits d s.users s.sessions with
  | none => { s with pending := s.pending.eraseIdx i }
  | some written =>
      { users := written.users
        sessions := written.sessions
        pending := s.pending.eraseIdx i
        commits := s.commits + 1
        handed := written.handed ++ s.handed
        ended := w.ends host s.sessions ++ s.ended }

/-- The steps. -/
def accountStep (host : AccountHost) (keys : ApiKeyTable) (s : AccountState) :
    AccountAction → Option AccountState
  | .read request now =>
      match readAccount host keys s.users s.sessions now request with
      | .error _ => some s
      | .ok w => some { s with pending := s.pending ++ [w] }
  | .commit i d => (s.pending[i]?).map (s.commit host i d)
  | .abort i =>
      (s.pending[i]?).map (fun _ => { s with pending := s.pending.eraseIdx i })

/-- Requests in any order. -/
def accountRequests (host : AccountHost) (keys : ApiKeyTable) :
    Machine AccountState AccountAction where
  step := accountStep host keys

/-! ## What has been earned -/

section Earned

variable (host : AccountHost) (keys : ApiKeyTable)

/-- A key of the user that has not been revoked. -/
def HoldsKey (raw : String) (userId : Uuid) : Prop :=
  ∃ key ∈ keys, key.keyHash = host.sha256 raw ∧ key.userId = userId ∧ key.revokedAt = none

/-- The password is that of the user. -/
structure HasPassword (users : UserTable) (user : UserRow) (password : String) : Prop where
  found : users.find? user.id = some user
  verified : ∃ stored, user.passwordHash = some stored ∧
    host.verifyPassword password stored = true

/-- A token has been handed out to the user for a password, a registration or an API key,
or for one that had been earned before.  Hashes are all that is compared. -/
inductive Earned (users : UserTable) (handed : List Handed) : String → Uuid → Prop where
  | password {t : Handed} {user : UserRow} {password : String} : t ∈ handed →
      t.grounds = .password password → user.id = t.userId →
      HasPassword host users user password → Earned users handed t.raw t.userId
  | registration {t : Handed} {email password : String} : t ∈ handed →
      t.grounds = .registration email password → Earned users handed t.raw t.userId
  | apiKey {t : Handed} {key : String} : t ∈ handed → t.grounds = .apiKey key →
      HoldsKey host keys key t.userId → Earned users handed t.raw t.userId
  | refresh {t : Handed} {used raw : String} : t ∈ handed → t.grounds = .token used →
      host.sha256 raw = host.sha256 used → Earned users handed raw t.userId →
      Earned users handed t.raw t.userId

/-- What lets the user in. -/
def Grounded (users : UserTable) (handed : List Handed) (userId : Uuid) : Grounds → Prop
  | .token used => ∃ raw, host.sha256 raw = host.sha256 used ∧
      Earned host keys users handed raw userId
  | .apiKey raw => HoldsKey host keys raw userId
  | _ => False

/-- The session of a token that has been earned, and for how long it is good. -/
def SessionEarned (users : UserTable) (handed : List Handed) (row : AuthSession) : Prop :=
  ∃ t ∈ handed, host.sha256 t.raw = row.tokenHash ∧ t.userId = row.userId ∧
    row.expiresAt = t.issuedAt + timedelta (host.sessionTtlHours * 3600) ∧
    Earned host keys users handed t.raw t.userId

/-- What is true of a request under way. -/
def WriteGrounded (users : UserTable) (handed : List Handed) : AccountWrite → Prop
  | .login user password => HasPassword host users user password
  | .refresh user _ grounds => Grounded host keys users handed user.id grounds
  | _ => True

/-- The session with this hash is there, and revoked. -/
def HasEnded (sessions : SessionTable) (hash : String) : Prop :=
  ∃ row, sessions.find? hash = some row ∧ row.revokedAt ≠ none

/-- What every step keeps. -/
structure TokensKept (s : AccountState) : Prop where
  sessions : ∀ row ∈ s.sessions, SessionEarned host keys s.users s.handed row
  pending : ∀ w ∈ s.pending, WriteGrounded host keys s.users s.handed w
  ended : ∀ hash ∈ s.ended, HasEnded s.sessions hash

variable {host} {keys} {users users' : UserTable} {handed handed' : List Handed}

/-- Users stay as they are. -/
def KeepsUsers (users users' : UserTable) : Prop :=
  ∀ id user, users.find? id = some user → users'.find? id = some user

theorem HasPassword.mono (hu : KeepsUsers users users') {user : UserRow} {password : String}
    (h : HasPassword host users user password) : HasPassword host users' user password :=
  ⟨hu _ _ h.found, h.verified⟩

theorem Earned.mono (hu : KeepsUsers users users') (hh : handed ⊆ handed') {raw : String}
    {userId : Uuid} (h : Earned host keys users handed raw userId) :
    Earned host keys users' handed' raw userId := by
  induction h with
  | password ht hgrounds hid hpassword => exact .password (hh ht) hgrounds hid (hpassword.mono hu)
  | registration ht hgrounds => exact .registration (hh ht) hgrounds
  | apiKey ht hgrounds hkey => exact .apiKey (hh ht) hgrounds hkey
  | refresh ht hgrounds hhash _ ih => exact .refresh (hh ht) hgrounds hhash ih

theorem SessionEarned.mono (hu : KeepsUsers users users') (hh : handed ⊆ handed')
    {row : AuthSession} (h : SessionEarned host keys users handed row) :
    SessionEarned host keys users' handed' row := by
  obtain ⟨t, ht, hhash, hid, hexpires, hearned⟩ := h
  exact ⟨t, hh ht, hhash, hid, hexpires, hearned.mono hu hh⟩

theorem WriteGrounded.mono (hu : KeepsUsers users users') (hh : handed ⊆ handed')
    {w : AccountWrite} (h : WriteGrounded host keys users handed w) :
    WriteGrounded host keys users' handed' w := by
  cases w with
  | login user password => exact HasPassword.mono hu h
  | refresh user c grounds =>
      cases grounds with
      | token used =>
          obtain ⟨raw, hhash, hearned⟩ := h
          exact ⟨raw, hhash, hearned.mono hu hh⟩
      | apiKey raw => exact h
      | _ => exact h.elim
  | _ => trivial

/-! ## Who is let in -/

theorem holdsKey_of_resolve {raw : String} {user : UserRow}
    (h : resolveApiKeyUser host keys users raw = some user) :
    HoldsKey host keys raw user.id ∧ ActiveUser users user := by
  unfold resolveApiKeyUser at h
  cases hkey : keys.find? (host.sha256 raw) with
  | none =>
      simp only [hkey] at h
      cases h
  | some key =>
      simp only [hkey] at h
      split at h
      · rename_i hlive
        cases huser : users.find? key.userId with
        | none =>
            simp only [huser] at h
            cases h
        | some found =>
            simp only [huser] at h
            split at h
            · rename_i hactive
              cases h
              have hid : user.id = key.userId := Table.key_of_find? huser
              obtain ⟨hmem, hhash⟩ := Table.find?_eq_some_iff.mp hkey
              exact ⟨⟨key, hmem, hhash, hid.symm, Option.isNone_iff_eq_none.mp hlive⟩,
                hid ▸ huser, hactive⟩
            · cases h
      · cases h

/-- The token that a session has been found with. -/
theorem token_of_currentSession {host : AuthHost} {sessions : SessionTable} {c : Credentials}
    {now : DateTime} {row : AuthSession} {user : UserRow}
    (h : currentSession host users sessions c now = .ok (row, user)) :
    ∃ raw, c.rawToken = some raw ∧ sessions.find? (host.sha256 raw) = some row ∧
      now < row.expiresAt := by
  unfold currentSession at h
  cases hraw : c.rawToken with
  | none =>
      simp only [hraw] at h
      cases h
  | some raw =>
      simp only [hraw] at h
      cases hrow : sessions.find? (host.sha256 raw) with
      | none =>
          simp only [hrow] at h
          cases h
      | some found =>
          simp only [hrow] at h
          split at h
          · rename_i hvalid
            have hfound : found = row := by
              split at h
              · cases h
              · split at h
                · exact congrArg Prod.fst (Except.ok.inj h)
                · cases h
            subst hfound
            unfold isSessionValid at hvalid
            rw [Bool.and_eq_true, decide_eq_true_eq] at hvalid
            exact ⟨raw, rfl, hrow, hvalid.2⟩
          · cases h

/-- Whoever is let in by a key holds it, and whoever is let in by a token has a session
that is live. -/
theorem of_getCurrentUser {sessions : SessionTable} {caller : Caller} {now : DateTime}
    {user : UserRow} {grounds : Grounds}
    (h : getCurrentUser host keys users sessions caller now = .ok (user, grounds)) :
    ActiveUser users user ∧
      ((∃ key, caller.apiKey = some key ∧ grounds = .apiKey key ∧
        HoldsKey host keys key user.id) ∨
      (∃ raw row, caller.apiKey = none ∧ caller.token.rawToken = some raw ∧
        grounds = .token raw ∧ sessions.find? (host.sha256 raw) = some row ∧
        row.revokedAt = none ∧ row.userId = user.id ∧ now < row.expiresAt)) := by
  unfold getCurrentUser at h
  cases hkey : caller.apiKey with
  | some key =>
      simp only [hkey] at h
      cases hresolve : resolveApiKeyUser host keys users key with
      | none =>
          simp only [hresolve] at h
          cases h
      | some found =>
          simp only [hresolve] at h
          cases h
          obtain ⟨hholds, hactive⟩ := holdsKey_of_resolve hresolve
          exact ⟨hactive, .inl ⟨key, rfl, rfl, hholds⟩⟩
  | none =>
      simp only [hkey] at h
      obtain ⟨⟨row, found⟩, hcurrent, heq⟩ := map_eq_ok.mp h
      obtain ⟨_, hlive, hid, hactive⟩ := currentSession_eq_ok hcurrent
      obtain ⟨raw, hraw, hrow, hexpires⟩ := token_of_currentSession hcurrent
      rw [hraw] at heq
      cases heq
      exact ⟨hactive, .inr ⟨raw, row, rfl, hraw, rfl, hrow, hlive, hid.symm, hexpires⟩⟩

/-- What lets somebody in has been earned. -/
theorem grounded_of_getCurrentUser {s : AccountState} (hs : TokensKept host keys s)
    {caller : Caller} {now : DateTime} {user : UserRow} {grounds : Grounds}
    (h : getCurrentUser host keys s.users s.sessions caller now = .ok (user, grounds)) :
    Grounded host keys s.users s.handed user.id grounds := by
  rcases (of_getCurrentUser h).2 with ⟨key, _, rfl, hholds⟩ |
    ⟨raw, row, _, _, rfl, hrow, _, hid, _⟩
  · exact hholds
  · obtain ⟨hmem, hhash⟩ := Table.find?_eq_some_iff.mp hrow
    obtain ⟨t, _, ht, htid, _, hearned⟩ := hs.sessions row hmem
    exact ⟨t.raw, ht.trans hhash, hid ▸ htid ▸ hearned⟩

/-! ## What a write does -/

/-- What a write does to the sessions. -/
def AccountWrite.toAuth (host : AccountHost) (commits : Nat) (d : AccountDraw) :
    AccountWrite → AuthWrite
  | register email password => .login (newUser host email password d)
  | login user _ => .login user
  | refresh user c _ => .refresh user c commits commits
  | logout c => .logout c
  | logoutAll user => .logoutAll user

/-- What a write does to the users. -/
def AccountWrite.toUsers (host : AccountHost) (d : AccountDraw) (users : UserTable) :
    AccountWrite → Option UserTable
  | register email password => insertUser host (newUser host email password d) users
  | _ => some users

/-- The tokens a write hands out: one for each session it inserts. -/
inductive HandsOut (host : AccountHost) (commits : Nat) (d : AccountDraw) (w : AccountWrite)
    (handed : List Handed) : Prop where
  | none : handed = [] → (w.toAuth host commits d).issued host.toAuthHost commits
      d.toAuthDraw = none → HandsOut host commits d w handed
  | one (user : UserRow) (grounds : Grounds) :
      handed = [⟨d.rawToken, user.id, grounds, d.issuedAt⟩] →
      (w.toAuth host commits d).issued host.toAuthHost commits d.toAuthDraw =
        some (issueSession host.toAuthHost user commits d.toAuthDraw) →
      (∀ email password, w = .register email password →
        user = newUser host email password d ∧ grounds = .registration email password) →
      (∀ found password, w = .login found password →
        user = found ∧ grounds = .password password) →
      (∀ found c grounds', w = .refresh found c grounds' →
        user = found ∧ grounds = grounds') → HandsOut host commits d w handed

variable {sessions : SessionTable} {commits : Nat} {d : AccountDraw} {w : AccountWrite}
  {written : Written}

theorem handOut_eq_some {user : UserRow} {grounds : Grounds} {t : SessionTable}
    {given : Handed} (h : handOut host user grounds commits d sessions = some (t, given)) :
    insertSession (issueSession host.toAuthHost user commits d.toAuthDraw) sessions =
        some t ∧ given = ⟨d.rawToken, user.id, grounds, d.issuedAt⟩ := by
  unfold handOut at h
  obtain ⟨t', ht', heq⟩ := Option.map_eq_some_iff.mp h
  cases heq
  exact ⟨ht', rfl⟩

/-- What a write that goes through has done. -/
theorem of_apply (h : w.apply host commits d users sessions = some written) :
    (w.toAuth host commits d).apply host.toAuthHost commits d.toAuthDraw sessions =
        some written.sessions ∧ HandsOut host commits d w written.handed ∧
      w.toUsers host d users = some written.users := by
  cases w with
  | register email password =>
      unfold AccountWrite.apply at h
      obtain ⟨users', husers, h⟩ := Option.bind_eq_some_iff.mp h
      obtain ⟨⟨t, given⟩, hgiven, h⟩ := Option.bind_eq_some_iff.mp h
      cases h
      obtain ⟨hsessions, rfl⟩ := handOut_eq_some hgiven
      refine ⟨hsessions, .one (newUser host email password d) (.registration email password)
        rfl rfl ?_ ?_ ?_, husers⟩
      · rintro _ _ ⟨⟩
        exact ⟨rfl, rfl⟩
      · rintro _ _ ⟨⟩
      · rintro _ _ _ ⟨⟩
  | login user password =>
      unfold AccountWrite.apply at h
      obtain ⟨⟨t, given⟩, hgiven, h⟩ := Option.bind_eq_some_iff.mp h
      cases h
      obtain ⟨hsessions, rfl⟩ := handOut_eq_some hgiven
      refine ⟨hsessions, .one user (.password password) rfl rfl ?_ ?_ ?_, rfl⟩
      · rintro _ _ ⟨⟩
      · rintro _ _ ⟨⟩
        exact ⟨rfl, rfl⟩
      · rintro _ _ _ ⟨⟩
  | refresh user c grounds =>
      unfold AccountWrite.apply at h
      obtain ⟨⟨t, given⟩, hgiven, h⟩ := Option.bind_eq_some_iff.mp h
      cases h
      obtain ⟨hsessions, rfl⟩ := handOut_eq_some hgiven
      refine ⟨hsessions, .one user grounds rfl rfl ?_ ?_ ?_, rfl⟩
      · rintro _ _ ⟨⟩
      · rintro _ _ ⟨⟩
      · rintro _ _ _ ⟨⟩
        exact ⟨rfl, rfl⟩
  | logout c =>
      cases h
      exact ⟨rfl, .none rfl rfl, rfl⟩
  | logoutAll user =>
      cases h
      exact ⟨rfl, .none rfl rfl, rfl⟩

theorem insertUser_eq_some {user : UserRow} (h : insertUser host user users = some users') :
    users.find? user.id = none ∧
      (∀ other ∈ users, host.sameEmail other.email user.email = false) ∧
      users' = users.put user := by
  unfold insertUser at h
  split at h
  · cases h
  · rename_i hfree
    cases h
    simp only [Bool.or_eq_true, not_or, Option.isSome_iff_ne_none, ne_eq, not_not,
      List.any_eq_true, not_exists, not_and, Bool.not_eq_true] at hfree
    exact ⟨hfree.1, hfree.2, rfl⟩

theorem keeps_insertUser {user : UserRow} (h : insertUser host user users = some users') :
    KeepsUsers users users' := by
  obtain ⟨hfree, _, rfl⟩ := insertUser_eq_some h
  intro id found hfound
  rw [Table.find?_put]
  split
  · rename_i hid
    rw [hid, hfree] at hfound
    cases hfound
  · exact hfound

theorem keeps_apply (h : w.apply host commits d users sessions = some written) :
    KeepsUsers users written.users := by
  have husers := (of_apply h).2.2
  cases w with
  | register email password => exact keeps_insertUser husers
  | _ =>
      cases husers
      exact fun _ _ hfound => hfound

/-! ## What has ended -/

section Ends

variable {host : AuthHost} {sessions t : SessionTable} {d : AuthDraw} {hash : String}

theorem HasEnded.modifyWhere {p : AuthSession → Bool} (now : DateTime)
    (h : HasEnded sessions hash) :
    HasEnded (sessions.modifyWhere p (AuthSession.revoke now) (tokenHash_revoke now)) hash := by
  obtain ⟨row, hrow, hrevoked⟩ := h
  refine ⟨_, by rw [Table.find?_modifyWhere, hrow]; rfl, ?_⟩
  dsimp only
  split
  · exact Option.some_ne_none now
  · exact hrevoked

theorem HasEnded.revokeToken (c : Credentials) (now : DateTime) (h : HasEnded sessions hash) :
    HasEnded (Ports.revokeToken host c now sessions) hash := by
  unfold Ports.revokeToken
  split
  · exact h
  · exact h.modifyWhere now

/-- What has ended stays so. -/
theorem HasEnded.apply {w : AuthWrite} {commits : Nat} (h : HasEnded sessions hash)
    (happly : w.apply host commits d sessions = some t) : HasEnded t hash := by
  have hrevokes : HasEnded (w.revokes host d sessions) hash := by
    cases w with
    | login user => exact h
    | refresh user c loginAt readAt => exact h.revokeToken c d.now
    | logout c => exact h.revokeToken c d.now
    | logoutAll user => exact h.modifyWhere d.now
  rw [apply_eq] at happly
  cases hissued : w.issued host commits d with
  | none =>
      rw [hissued] at happly
      cases happly
      exact hrevokes
  | some new =>
      rw [hissued] at happly
      obtain ⟨hfree, rfl⟩ := insertSession_eq_some_iff.mp happly
      obtain ⟨row, hrow, hrevoked⟩ := hrevokes
      refine ⟨row, ?_, hrevoked⟩
      rw [Table.find?_put]
      split
      · rename_i hsame
        rw [hsame, hfree] at hrow
        cases hrow
      · exact hrow

/-- The token of a request is revoked. -/
theorem ended_revokeToken {c : Credentials} {raw : String} {now : DateTime}
    (hraw : c.rawToken = some raw) (hsome : (sessions.find? (host.sha256 raw)).isSome) :
    HasEnded (revokeToken host c now sessions) (host.sha256 raw) := by
  obtain ⟨row, hrow⟩ := Option.isSome_iff_exists.mp hsome
  unfold Ports.revokeToken
  rw [hraw]
  refine ⟨_, by rw [Table.find?_modifyWhere, hrow]; rfl, ?_⟩
  dsimp only
  rw [if_pos (decide_eq_true (Table.key_of_find? hrow))]
  exact Option.some_ne_none now

/-- All sessions of the user are revoked. -/
theorem ended_revokeAll {row : AuthSession} {now : DateTime} (hrow : row ∈ sessions) :
    HasEnded (revokeAll row.userId now sessions) row.tokenHash := by
  unfold revokeAll
  refine ⟨_, by rw [Table.find?_modifyWhere, Table.find?_key hrow]; rfl, ?_⟩
  dsimp only
  split
  · exact Option.some_ne_none now
  · rename_i hnot
    intro hnone
    exact hnot (by simp [hnone])

end Ends

/-- What a write ends, it has revoked. -/
theorem ended_of_ends (h : w.apply host commits d users sessions = some written)
    {hash : String} (hends : hash ∈ w.ends host sessions) :
    HasEnded written.sessions hash := by
  have htoken : ∀ c : Credentials, hash ∈ AccountWrite.ends.tokenOf host sessions c →
      HasEnded (revokeToken host.toAuthHost c d.now sessions) hash := by
    intro c hc
    unfold AccountWrite.ends.tokenOf at hc
    cases hraw : c.rawToken with
    | none =>
        rw [hraw] at hc
        cases hc
    | some raw =>
        rw [hraw] at hc
        dsimp only at hc
        split at hc
        · rename_i hsome
          obtain rfl := List.mem_singleton.mp hc
          exact ended_revokeToken hraw hsome
        · cases hc
  cases w with
  | register email password => cases hends
  | login user password => cases hends
  | refresh user c grounds =>
      -- the new session has another hash than the one that is there
      have hgone := htoken c hends
      have hlogin : (AuthWrite.login user).apply host.toAuthHost commits d.toAuthDraw
          (revokeToken host.toAuthHost c d.now sessions) = some written.sessions :=
        (of_apply h).1
      exact hgone.apply hlogin
  | logout c =>
      cases h
      exact htoken c hends
  | logoutAll user =>
      cases h
      obtain ⟨row, hrow, rfl⟩ := List.mem_map.mp hends
      obtain ⟨hmem, huser⟩ := List.mem_filter.mp hrow
      rw [← of_decide_eq_true huser]
      exact ended_revokeAll hmem

/-! ## One step -/

theorem hasPassword_of_loginUser {email password : String} {user : UserRow}
    (h : loginUser host.toAuthHost users email password = .ok user) :
    HasPassword host users user password := by
  unfold loginUser at h
  cases hfound : users.rows.find? (fun user => host.sameEmail user.email email) with
  | none =>
      simp only [hfound] at h
      cases h
  | some found =>
      simp only [hfound] at h
      cases hstored : found.passwordHash with
      | none =>
          simp only [hstored] at h
          cases h
      | some stored =>
          simp only [hstored] at h
          split_ifs at h with hverified hactive
          cases h
          exact ⟨Table.find?_key (List.mem_of_find?_eq_some hfound), stored, hstored, hverified⟩

/-- What is let in has earned it. -/
theorem writeGrounded_of_readAccount {s : AccountState} (hs : TokensKept host keys s)
    {request : AccountRequest} {now : DateTime} {w : AccountWrite}
    (h : readAccount host keys s.users s.sessions now request = .ok w) :
    WriteGrounded host keys s.users s.handed w := by
  cases request with
  | register email password =>
      simp only [readAccount] at h
      split_ifs at h
      cases h
      trivial
  | login email password =>
      obtain ⟨user, huser, rfl⟩ := map_eq_ok.mp h
      exact hasPassword_of_loginUser huser
  | refresh caller =>
      obtain ⟨⟨user, grounds⟩, huser, rfl⟩ := map_eq_ok.mp h
      exact grounded_of_getCurrentUser hs huser
  | logout caller =>
      obtain ⟨_, _, rfl⟩ := map_eq_ok.mp h
      trivial
  | logoutAll caller =>
      obtain ⟨_, _, rfl⟩ := map_eq_ok.mp h
      trivial

/-- A token that is handed out has been earned. -/
theorem earned_of_handsOut {t : Handed} (hw : WriteGrounded host keys users handed w)
    (hout : HandsOut host commits d w [t]) :
    Earned host keys users (t :: handed) t.raw t.userId := by
  have hkeep : KeepsUsers users users := fun _ _ hfound => hfound
  have hmem : t ∈ t :: handed := List.mem_cons_self
  cases hout with
  | none hnil _ => cases hnil
  | one user grounds heq hissued hregister hlogin hrefresh =>
      obtain rfl := List.singleton_inj.mp heq
      cases w with
      | register email password =>
          obtain ⟨_, rfl⟩ := hregister email password rfl
          exact .registration hmem rfl
      | login found password =>
          obtain ⟨rfl, rfl⟩ := hlogin found password rfl
          exact .password hmem rfl rfl hw
      | refresh found c grounds' =>
          obtain ⟨rfl, rfl⟩ := hrefresh found c grounds' rfl
          cases grounds with
          | token used =>
              obtain ⟨raw, hhash, hearned⟩ := hw
              exact .refresh hmem rfl hhash (hearned.mono hkeep (List.subset_cons_self _ _))
          | apiKey key => exact .apiKey hmem rfl hw
          | password password => exact hw.elim
          | registration email password => exact hw.elim
      | logout c => cases hissued
      | logoutAll user => cases hissued

/-- The sessions after a write. -/
theorem sessionEarned_apply (hw : WriteGrounded host keys users handed w)
    (hsessions : ∀ row ∈ sessions, SessionEarned host keys users handed row)
    (h : w.apply host commits d users sessions = some written) :
    ∀ row ∈ written.sessions,
      SessionEarned host keys written.users (written.handed ++ handed) row := by
  obtain ⟨happly, hout, _⟩ := of_apply h
  have hkeep : KeepsUsers users written.users := keeps_apply h
  have hhanded : handed ⊆ written.handed ++ handed := List.subset_append_right _ _
  intro row hrow
  rcases mem_apply happly hrow with ⟨r, hr, rfl | rfl⟩ | ⟨hissued, _⟩
  · exact (hsessions row hr).mono hkeep hhanded
  · -- being revoked is no part of what has been earned
    have hearned := (hsessions r hr).mono hkeep hhanded
    exact hearned
  · rcases hout with ⟨_, hnone⟩ | ⟨user, grounds, heq, hsome, hregister, hlogin, hrefresh⟩
    · rw [hnone] at hissued
      cases hissued
    · rw [hsome] at hissued
      cases hissued
      rw [heq]
      refine ⟨_, List.mem_cons_self, rfl, rfl, rfl, ?_⟩
      have hone := HandsOut.one user grounds rfl hsome hregister hlogin hrefresh
      exact (earned_of_handsOut hw hone).mono hkeep (List.Subset.refl _)

/-- What a step can do. -/
inductive AccountStep (host : AccountHost) (keys : ApiKeyTable) (s : AccountState) :
    AccountState → Prop where
  | refused : AccountStep host keys s s
  | letIn {request : AccountRequest} {now : DateTime} {w : AccountWrite} :
      readAccount host keys s.users s.sessions now request = .ok w →
      AccountStep host keys s { s with pending := s.pending ++ [w] }
  | gone (i : Nat) : AccountStep host keys s { s with pending := s.pending.eraseIdx i }
  | committed {i : Nat} {d : AccountDraw} {w : AccountWrite} {written : Written} :
      w ∈ s.pending → w.apply host s.commits d s.users s.sessions = some written →
      AccountStep host keys s
        { users := written.users
          sessions := written.sessions
          pending := s.pending.eraseIdx i
          commits := s.commits + 1
          handed := written.handed ++ s.handed
          ended := w.ends host s.sessions ++ s.ended }

theorem accountStep_cases {s t : AccountState} {a : AccountAction}
    (hstep : (accountRequests host keys).step s a = some t) : AccountStep host keys s t := by
  have hstep : accountStep host keys s a = some t := hstep
  cases a with
  | read request now =>
      simp only [accountStep] at hstep
      cases hread : readAccount host keys s.users s.sessions now request with
      | error e =>
          simp only [hread] at hstep
          cases hstep
          exact .refused
      | ok w =>
          simp only [hread] at hstep
          cases hstep
          exact .letIn hread
  | commit i d =>
      obtain ⟨w, hw, rfl⟩ := Option.map_eq_some_iff.mp hstep
      unfold AccountState.commit
      cases happly : w.apply host s.commits d s.users s.sessions with
      | none => exact .gone i
      | some written => exact .committed (List.mem_of_getElem? hw) happly
  | abort i =>
      obtain ⟨w, _, rfl⟩ := Option.map_eq_some_iff.mp hstep
      exact .gone i

/-- **One step.** -/
theorem tokensKept_step {s t : AccountState} {a : AccountAction}
    (hs : TokensKept host keys s) (hstep : (accountRequests host keys).step s a = some t) :
    TokensKept host keys t := by
  cases accountStep_cases hstep with
  | refused => exact hs
  | letIn hread =>
      refine ⟨hs.sessions, fun w hw => ?_, hs.ended⟩
      rcases List.mem_append.mp hw with hold | hnew
      · exact hs.pending w hold
      · rw [List.mem_singleton.mp hnew]
        exact writeGrounded_of_readAccount hs hread
  | gone i =>
      exact ⟨hs.sessions, fun w hw => hs.pending w (List.mem_of_mem_eraseIdx hw), hs.ended⟩
  | committed hw happly =>
      refine ⟨sessionEarned_apply (hs.pending _ hw) hs.sessions happly, fun v hv => ?_,
        fun hash hhash => ?_⟩
      · exact (hs.pending v (List.mem_of_mem_eraseIdx hv)).mono (keeps_apply happly)
          (List.subset_append_right _ _)
      · rcases List.mem_append.mp hhash with hnew | hold
        · exact ended_of_ends happly hnew
        · exact (hs.ended hash hold).apply (of_apply happly).1

end Earned

/-! ## Every run -/

theorem tokensKept_init (host : AccountHost) (keys : ApiKeyTable) (users : UserTable) :
    TokensKept host keys (.init users) := by
  constructor
  · intro row hrow
    cases hrow
  · intro w hw
    cases hw
  · intro hash hhash
    cases hhash

theorem tokensKept_run {host : AccountHost} {keys : ApiKeyTable} {users : UserTable}
    {as : List AccountAction} {s : AccountState}
    (hrun : (accountRequests host keys).exec (.init users) as = some s) :
    TokensKept host keys s :=
  Machine.invariant_of_step (fun _ _ _ hs hstep => tokensKept_step hs hstep)
    (tokensKept_init host keys users) hrun

/-- In every run of registrations, logins, refreshes, logouts and logout-alls, from a
database without sessions, whoever is let in is active, and either holds an API key that
has not been revoked, or shows a token that no refresh, logout or logout-all has ended,
that has been handed out to this very user less than the lifetime of a session ago, and
that has been earned: by a password of the user, by the registration, by an API key, or by
a refresh with a token that had been earned. -/
theorem tokens_run (host : AccountHost) (keys : ApiKeyTable) (users : UserTable)
    (as : List AccountAction) (s : AccountState)
    (hrun : (accountRequests host keys).exec (.init users) as = some s)
    (caller : Caller) (now : DateTime) (user : UserRow) (grounds : Grounds)
    (h : getCurrentUser host keys s.users s.sessions caller now = .ok (user, grounds)) :
    ActiveUser s.users user ∧
      ((∃ key, caller.apiKey = some key ∧ HoldsKey host keys key user.id) ∨
      (∃ raw, caller.apiKey = none ∧ caller.token.rawToken = some raw ∧
        host.sha256 raw ∉ s.ended ∧
        ∃ t ∈ s.handed, host.sha256 t.raw = host.sha256 raw ∧ t.userId = user.id ∧
          now < t.issuedAt + timedelta (host.sessionTtlHours * 3600) ∧
          Earned host keys s.users s.handed t.raw user.id)) := by
  have hs : TokensKept host keys s := tokensKept_run hrun
  obtain ⟨hactive, ⟨key, hkey, _, hholds⟩ |
    ⟨raw, row, hkey, hraw, _, hrow, hlive, hid, hexpires⟩⟩ := of_getCurrentUser h
  · exact ⟨hactive, .inl ⟨key, hkey, hholds⟩⟩
  · obtain ⟨hmem, hhash⟩ := Table.find?_eq_some_iff.mp hrow
    obtain ⟨t, ht, htoken, htid, hgood, hearned⟩ := hs.sessions row hmem
    refine ⟨hactive, .inr ⟨raw, hkey, hraw, fun hended => ?_, t, ht, htoken.trans hhash,
      htid.trans hid, hgood ▸ hexpires, hid ▸ htid ▸ hearned⟩⟩
    -- what has been ended is there, and revoked
    obtain ⟨row', hrow', hrevoked⟩ := hs.ended _ hended
    rw [hrow] at hrow'
    cases hrow'
    exact hrevoked hlive

/-! ## Addresses -/

/-- Argon2 verifies what it has hashed, and `CITEXT` compares as an equivalence. -/
structure AccountHost.Lawful (host : AccountHost) : Prop where
  verify : ∀ salt password,
    host.verifyPassword password (host.hashPassword salt password) = true
  same : Equivalence (fun email email' => host.sameEmail email email' = true)

/-- No two users have one address. -/
def OwnAddresses (host : AccountHost) (users : UserTable) : Prop :=
  ∀ user ∈ users, ∀ other ∈ users, host.sameEmail user.email other.email = true → user = other

/-- What every step keeps of the users. -/
structure AccountsKept (host : AccountHost) (s : AccountState) : Prop where
  own : OwnAddresses host s.users
  long : ∀ email password, .register email password ∈ s.pending → 8 ≤ password.length
  registered : ∀ t ∈ s.handed, ∀ email password, t.grounds = .registration email password →
    8 ≤ password.length ∧ ∃ salt, s.users.find? t.userId =
      some ⟨t.userId, email, some (host.hashPassword salt password), "active"⟩

section Addresses

variable {host : AccountHost} {keys : ApiKeyTable} {users users' : UserTable}

theorem ownAddresses_insertUser (hlaw : host.Lawful) {user : UserRow}
    (hown : OwnAddresses host users) (h : insertUser host user users = some users') :
    OwnAddresses host users' := by
  obtain ⟨_, hother, rfl⟩ := insertUser_eq_some h
  have hfree : ∀ other ∈ users, ¬ host.sameEmail other.email user.email = true :=
    fun other hmem => Bool.not_eq_true _ ▸ hother other hmem
  intro u hu v hv hsame
  rcases Table.mem_put.mp hu with rfl | ⟨hold, _⟩
  · rcases Table.mem_put.mp hv with rfl | ⟨hold, _⟩
    · rfl
    · exact absurd (hlaw.same.symm hsame) (hfree v hold)
  · rcases Table.mem_put.mp hv with rfl | ⟨hold', _⟩
    · exact absurd hsame (hfree u hold)
    · exact hown u hold v hold' hsame

/-- A registration that has gone through has inserted its user. -/
theorem registered_of_handsOut {handed : List Handed} {sessions : SessionTable}
    {commits : Nat} {d : AccountDraw} {w : AccountWrite} {written : Written} {t : Handed}
    {email password : String} (hw : WriteGrounded host keys users handed w)
    (happly : w.apply host commits d users sessions = some written) (ht : t ∈ written.handed)
    (hgrounds : t.grounds = .registration email password) :
    w = .register email password ∧ written.users.find? t.userId =
      some ⟨t.userId, email, some (host.hashPassword d.salt password), "active"⟩ := by
  obtain ⟨_, hout, husers⟩ := of_apply happly
  rcases hout with ⟨hnil, _⟩ | ⟨user, grounds, heq, hissued, hregister, hlogin, hrefresh⟩
  · rw [hnil] at ht
    cases ht
  · rw [heq] at ht
    obtain rfl := List.mem_singleton.mp ht
    obtain rfl : grounds = .registration email password := hgrounds
    cases w with
    | register email' password' =>
        obtain ⟨rfl, hsame⟩ := hregister email' password' rfl
        cases hsame
        refine ⟨rfl, ?_⟩
        obtain ⟨_, _, hput⟩ := insertUser_eq_some husers
        rw [hput, Table.find?_put, if_pos rfl]
        rfl
    | login found password' =>
        obtain ⟨_, hsame⟩ := hlogin found password' rfl
        cases hsame
    | refresh found c grounds' =>
        obtain ⟨_, rfl⟩ := hrefresh found c grounds' rfl
        exact hw.elim
    | logout c => cases hissued
    | logoutAll user => cases hissued

theorem long_of_readAccount {sessions : SessionTable} {now : DateTime}
    {request : AccountRequest} {email password : String}
    (h : readAccount host keys users sessions now request = .ok (.register email password)) :
    8 ≤ password.length := by
  cases request with
  | register email' password' =>
      simp only [readAccount] at h
      split_ifs at h with htaken hshort
      cases h
      omega
  | _ =>
      obtain ⟨_, _, heq⟩ := map_eq_ok.mp h
      cases heq

/-- **One step**, of the users. -/
theorem accountsKept_step (hlaw : host.Lawful) {s t : AccountState} {a : AccountAction}
    (htokens : TokensKept host keys s) (hs : AccountsKept host s)
    (hstep : (accountRequests host keys).step s a = some t) : AccountsKept host t := by
  cases accountStep_cases hstep with
  | refused => exact hs
  | letIn hread =>
      refine ⟨hs.own, fun email password hw => ?_, hs.registered⟩
      rcases List.mem_append.mp hw with hold | hnew
      · exact hs.long email password hold
      · rw [← List.mem_singleton.mp hnew] at hread
        exact long_of_readAccount hread
  | gone i =>
      exact ⟨hs.own, fun email password hw =>
        hs.long email password (List.mem_of_mem_eraseIdx hw), hs.registered⟩
  | @committed i d w written hw happly =>
      have husers : w.toUsers host d s.users = some written.users := (of_apply happly).2.2
      refine ⟨?_, fun email password hv =>
        hs.long email password (List.mem_of_mem_eraseIdx hv),
        fun t ht email password hgrounds => ?_⟩
      · cases w with
        | register email password => exact ownAddresses_insertUser hlaw hs.own husers
        | _ =>
            rw [← Option.some.inj husers]
            exact hs.own
      · rcases List.mem_append.mp ht with hnew | hold
        · obtain ⟨rfl, hfound⟩ :=
            registered_of_handsOut (htokens.pending w hw) happly hnew hgrounds
          exact ⟨hs.long email password hw, d.salt, hfound⟩
        · obtain ⟨hlong, salt, hfound⟩ := hs.registered t hold email password hgrounds
          exact ⟨hlong, salt, keeps_apply happly _ _ hfound⟩

/-- The user of an address is the one that logs in by it. -/
theorem loginUser_of_found (hlaw : host.Lawful) (hown : OwnAddresses host users)
    {id : Uuid} {email email' password : String} {salt : Nat}
    (hfound : users.find? id =
      some ⟨id, email, some (host.hashPassword salt password), "active"⟩)
    (hsame : host.sameEmail email email' = true) :
    ∃ user, user.id = id ∧ loginUser host.toAuthHost users email' password = .ok user := by
  obtain ⟨hmem, _⟩ := Table.find?_eq_some_iff.mp hfound
  have hfirst : users.rows.find? (fun user => host.sameEmail user.email email') =
      some ⟨id, email, some (host.hashPassword salt password), "active"⟩ := by
    cases hfirst : users.rows.find? (fun user => host.sameEmail user.email email') with
    | none => exact absurd hsame (List.find?_eq_none.mp hfirst _ hmem)
    | some other =>
        have hother := List.find?_some hfirst
        exact congrArg some (hown other (List.mem_of_find?_eq_some hfirst) _ hmem
          (hlaw.same.trans hother (hlaw.same.symm hsame)))
  refine ⟨⟨id, email, some (host.hashPassword salt password), "active"⟩, rfl, ?_⟩
  unfold loginUser
  rw [hfirst]
  dsimp only
  rw [if_pos (hlaw.verify salt password), if_pos rfl]

/-- In every run, from users whose addresses differ, no two users ever share an address,
whatever registrations race; and whoever has been given a token for a registration has
chosen a password of at least eight characters, and can log in with it from then on, under
any spelling of the address. -/
theorem accounts_run (host : AccountHost) (hlaw : host.Lawful) (keys : ApiKeyTable)
    (users : UserTable) (hown : OwnAddresses host users) (as : List AccountAction)
    (s : AccountState) (hrun : (accountRequests host keys).exec (.init users) as = some s) :
    OwnAddresses host s.users ∧
      ∀ t ∈ s.handed, ∀ email password, t.grounds = .registration email password →
        8 ≤ password.length ∧
        ∀ email', host.sameEmail email email' = true → ∃ user, user.id = t.userId ∧
          loginUser host.toAuthHost s.users email' password = .ok user := by
  have hinit : AccountsKept host (.init users) := by
    refine ⟨hown, fun _ _ hw => ?_, fun _ ht => ?_⟩
    · cases hw
    · cases ht
  have hs : TokensKept host keys s ∧ AccountsKept host s :=
    Machine.invariant_of_step (I := fun s => TokensKept host keys s ∧ AccountsKept host s)
      (fun _ _ _ hs hstep =>
        ⟨tokensKept_step hs.1 hstep, accountsKept_step hlaw hs.1 hs.2 hstep⟩)
      ⟨tokensKept_init host keys users, hinit⟩ hrun
  refine ⟨hs.2.own, fun t ht email password hgrounds => ?_⟩
  obtain ⟨hlong, salt, hfound⟩ := hs.2.registered t ht email password hgrounds
  exact ⟨hlong, fun email' hsame => loginUser_of_found hlaw hs.2.own hfound hsame⟩

end Addresses

/-! ## A registration and a refresh -/

/-- A host for examples. -/
def accountHost : AccountHost where
  sha256 := id
  verifyPassword password stored := stored = "$argon2id$" ++ password
  sameEmail email email' := email.toList.map Char.toLower = email'.toList.map Char.toLower
  sessionTtlHours := 12
  hashPassword _ password := "$argon2id$" ++ password

theorem lawful_accountHost : accountHost.Lawful where
  verify _ _ := decide_eq_true rfl
  same := by
    refine ⟨fun _ => decide_eq_true rfl, fun h => ?_, fun h h' => ?_⟩
    · exact decide_eq_true (of_decide_eq_true h).symm
    · exact decide_eq_true ((of_decide_eq_true h).trans (of_decide_eq_true h'))

/-- What is drawn in an example. -/
def accountDraw (userId : Uuid) (rawToken : String) (h : rawToken ≠ "") : AccountDraw :=
  ⟨⟨0, 0, rawToken, h⟩, userId, 0⟩

/-- Two registrations of one address, of which one goes through, and a refresh with its
token. -/
def racingRegistrations : List AccountAction :=
  [.read (.register "ann@example.org" "correct horse") 0,
    .read (.register "Ann@example.org" "battery staple") 0,
    .commit 1 (accountDraw 7 "one" (by decide)), .commit 0 (accountDraw 8 "lost" (by decide)),
    .read (.refresh ⟨none, ⟨some "one", none⟩⟩) 1, .commit 0 (accountDraw 9 "two" (by decide))]

theorem ok_of_toOption {ε α : Type} {x : Except ε α} {a : α} (h : x.toOption = some a) :
    x = .ok a := by
  cases x with
  | error e => cases h
  | ok b => exact congrArg Except.ok (Option.some.inj h)

/-- Who is let in by a token at the end of a run, what has been handed out, and what has
been ended. -/
def accountsAfter (as : List AccountAction) (rawToken : String) (now : DateTime) :
    Option (Option (UserRow × Grounds) × List Handed × List String) :=
  ((accountRequests accountHost .empty).exec (.init .empty) as).map (fun s =>
    ((getCurrentUser accountHost .empty s.users s.sessions ⟨none, ⟨some rawToken, none⟩⟩
      now).toOption, s.handed, s.ended))

theorem accountsAfter_racing : accountsAfter racingRegistrations "two" 2 =
    some (some (⟨7, "Ann@example.org", some "$argon2id$battery staple", "active"⟩, .token "two"),
      [⟨"two", 7, .token "one", 0⟩,
        ⟨"one", 7, .registration "Ann@example.org" "battery staple", 0⟩], ["one"]) := by
  decide +kernel

theorem tokens_run_racing :
    ∃ s user, (accountRequests accountHost .empty).exec (.init .empty) racingRegistrations =
        some s ∧ user.id = 7 ∧ ActiveUser s.users user ∧ s.ended = ["one"] ∧
      ∃ t ∈ s.handed, t.raw = "two" ∧
        Earned accountHost .empty s.users s.handed t.raw user.id := by
  obtain ⟨s, hrun, heq⟩ := Option.map_eq_some_iff.mp accountsAfter_racing
  obtain ⟨hin, hrest⟩ := Prod.mk.inj heq
  have hcaller := ok_of_toOption hin
  have hraw : Credentials.rawToken ⟨some "two", none⟩ = some "two" := by decide +kernel
  obtain ⟨hactive, ⟨key, hkey, _⟩ | ⟨raw, _, htoken, _, t, ht, hhash, htid, _, hearned⟩⟩ :=
    tokens_run accountHost .empty .empty racingRegistrations s hrun _ 2 _ _ hcaller
  · cases hkey
  · obtain rfl : "two" = raw := Option.some.inj (hraw.symm.trans htoken)
    exact ⟨s, _, hrun, rfl, hactive, congrArg Prod.snd hrest, t, ht, hhash, hearned⟩

theorem sameEmail_spelled :
    accountHost.sameEmail "Ann@example.org" "ANN@example.org" = true := by
  decide +kernel

theorem accounts_run_racing :
    ∃ s, (accountRequests accountHost .empty).exec (.init .empty) racingRegistrations =
        some s ∧ OwnAddresses accountHost s.users ∧
      ∃ user, user.id = 7 ∧ loginUser accountHost.toAuthHost s.users "ANN@example.org"
        "battery staple" = .ok user := by
  obtain ⟨s, hrun, heq⟩ := Option.map_eq_some_iff.mp accountsAfter_racing
  obtain ⟨_, hrest⟩ := Prod.mk.inj heq
  obtain ⟨hhanded, _⟩ := Prod.mk.inj hrest
  have hmem : ⟨"one", 7, .registration "Ann@example.org" "battery staple", 0⟩ ∈ s.handed := by
    rw [hhanded]
    exact List.mem_cons_of_mem _ List.mem_cons_self
  obtain ⟨hown, hlogin⟩ := accounts_run accountHost lawful_accountHost .empty .empty
    (fun _ hu => by cases hu) racingRegistrations s hrun
  obtain ⟨_, hregistered⟩ := hlogin _ hmem "Ann@example.org" "battery staple" rfl
  obtain ⟨user, hid, hok⟩ := hregistered "ANN@example.org" sameEmail_spelled
  exact ⟨s, hrun, hown, user, hid, hok⟩

end Imagin4.Ports
