import Imagin4.Verified.Machine
import Imagin4.Verified.Outcome
import Imagin4.Verified.Table
import Imagin4.Ports.ChatRouter

/-!
# Sessions

Login, refresh, logout and logout-all of `app/api/v1/auth.py`, with
`get_current_user` of `app/api/deps.py` for a request with a session token.  Each of
them first reads who the caller is, and commits one write later; any number of them
may be under way at a time.

A refresh revokes the session it was called with and inserts a new one, whether or
not that session is still good by then.

## Main results

* `currentSession_of_live` — a session that is not revoked authenticates.
* `survivors_step` — the one step that gives a session a second life.
* `logoutAll_run` — in which runs a logout-all is the end of all that came before.
* `not_logoutAll` — the refresh it does not stop.
-/

namespace Imagin4.Ports

open Imagin4.Verified

/-! ## Tables -/

/-- A row of `users`. -/
structure UserRow where
  id : Uuid
  email : String
  passwordHash : Option String
  status : String
deriving DecidableEq

/-- A row of `auth_sessions`.  `loginAt` is no column: it counts the writes that had
been committed when the login at the beginning of the session's chain of refreshes
was. -/
structure AuthSession where
  userId : Uuid
  tokenHash : String
  expiresAt : DateTime
  revokedAt : Option DateTime
  loginAt : Nat
deriving DecidableEq

/-- `users`, by primary key. -/
abbrev UserTable := Table UserRow.id

/-- `auth_sessions`, by the unique `token_hash`. -/
abbrev SessionTable := Table AuthSession.tokenHash

/-- What the endpoints take from elsewhere: SHA-256 in hexadecimal, Argon2, the
equality of `CITEXT`, and `settings.session_ttl_hours`. -/
structure AuthHost where
  sha256 : String → String
  verifyPassword : String → String → Bool
  sameEmail : String → String → Bool
  sessionTtlHours : Int

/-- `is_session_valid`. -/
def isSessionValid (expiresAt : DateTime) (revokedAt : Option DateTime)
    (now : DateTime) : Bool :=
  revokedAt.isNone && now < expiresAt

/-! ## Who is calling -/

/-- The `X-Session-Token` of a request and its session cookie. -/
structure Credentials where
  header : Option String
  cookie : Option String

/-- `request.headers.get("X-Session-Token") or request.cookies.get(…)`, if there is
anything in it. -/
def Credentials.rawToken (c : Credentials) : Option String :=
  match c.header with
  | some token =>
      if token = "" then c.cookie.filter (fun t => t ≠ "") else some token
  | none => c.cookie.filter (fun t => t ≠ "")

section Requests

variable (host : AuthHost) (users : UserTable)

/-- `get_current_user`, with the session it has found. -/
def currentSession (sessions : SessionTable) (c : Credentials) (now : DateTime) :
    Except RouterError (AuthSession × UserRow) :=
  match c.rawToken with
  | none => .error (.http 401 "not authenticated")
  | some raw =>
      match sessions.find? (host.sha256 raw) with
      | none => .error (.http 401 "session invalid")
      | some row =>
          if isSessionValid row.expiresAt row.revokedAt now then
            match users.find? row.userId with
            | none => .error (.http 401 "user not active")
            | some user =>
                if user.status = "active" then .ok (row, user)
                else .error (.http 401 "user not active")
          else .error (.http 401 "session invalid")

/-- The four requests. -/
inductive AuthRequest where
  | login (email password : String)
  | refresh (c : Credentials)
  | logout (c : Credentials)
  | logoutAll (c : Credentials)

/-- What a request that has been let in is going to write.  `loginAt` and `readAt`
are no part of the code: the login behind the session, and the number of writes
that had been committed when it was read. -/
inductive AuthWrite where
  | login (user : UserRow)
  | refresh (user : UserRow) (c : Credentials) (loginAt readAt : Nat)
  | logout (c : Credentials)
  | logoutAll (user : UserRow)

/-- `login`, up to the write. -/
def loginUser (email password : String) : Except RouterError UserRow :=
  match users.rows.find? (fun user => host.sameEmail user.email email) with
  | none => .error (.http 401 "invalid credentials")
  | some user =>
      match user.passwordHash with
      | none => .error (.http 401 "invalid credentials")
      | some stored =>
          if host.verifyPassword password stored then
            if user.status = "active" then .ok user
            else .error (.http 403 "account not active")
          else .error (.http 401 "invalid credentials")

/-- The read of a request. -/
def authenticate (sessions : SessionTable) (commits : Nat) (now : DateTime) :
    AuthRequest → Except RouterError AuthWrite
  | .login email password => (loginUser host users email password).map .login
  | .refresh c =>
      (currentSession host users sessions c now).map
        (fun r => .refresh r.2 c r.1.loginAt commits)
  | .logout c =>
      (currentSession host users sessions c now).map (fun _ => .logout c)
  | .logoutAll c =>
      (currentSession host users sessions c now).map (fun r => .logoutAll r.2)

end Requests

/-! ## Writes -/

/-- What a write draws: the time of an update, and the time and the raw token of
`issue_session`. -/
structure AuthDraw where
  now : DateTime
  issuedAt : DateTime
  rawToken : String
  rawToken_ne : rawToken ≠ ""

/-- `revoked_at = now`. -/
def AuthSession.revoke (now : DateTime) (row : AuthSession) : AuthSession :=
  { row with revokedAt := some now }

theorem tokenHash_revoke (now : DateTime) (row : AuthSession) :
    (row.revoke now).tokenHash = row.tokenHash := rfl

/-- `UPDATE auth_sessions SET revoked_at = :now WHERE token_hash = :hash` -/
def revokeToken (host : AuthHost) (c : Credentials) (now : DateTime)
    (sessions : SessionTable) : SessionTable :=
  match c.rawToken with
  | none => sessions
  | some raw =>
      sessions.modifyWhere (fun row => row.tokenHash = host.sha256 raw)
        (AuthSession.revoke now) (tokenHash_revoke now)

/-- `UPDATE auth_sessions SET revoked_at = :now
WHERE user_id = :id AND revoked_at IS NULL` -/
def revokeAll (userId : Uuid) (now : DateTime) (sessions : SessionTable) :
    SessionTable :=
  sessions.modifyWhere
    (fun row => decide (row.userId = userId) && row.revokedAt.isNone)
    (AuthSession.revoke now) (tokenHash_revoke now)

/-- The session that `issue_session` makes. -/
def issueSession (host : AuthHost) (user : UserRow) (loginAt : Nat) (d : AuthDraw) :
    AuthSession where
  userId := user.id
  tokenHash := host.sha256 d.rawToken
  expiresAt := d.issuedAt + timedelta (host.sessionTtlHours * 3600)
  revokedAt := none
  loginAt := loginAt

/-- The `INSERT` that the commit flushes; `none` is its `IntegrityError`. -/
def insertSession (row : AuthSession) (sessions : SessionTable) :
    Option SessionTable :=
  if (sessions.find? row.tokenHash).isSome then none else some (sessions.put row)

/-- The write of a request, after `commits` others. -/
def AuthWrite.apply (host : AuthHost) (commits : Nat) (d : AuthDraw)
    (sessions : SessionTable) : AuthWrite → Option SessionTable
  | login user => insertSession (issueSession host user commits d) sessions
  | refresh user c loginAt _ =>
      insertSession (issueSession host user loginAt d)
        (revokeToken host c d.now sessions)
  | logout c => some (revokeToken host c d.now sessions)
  | logoutAll user => some (revokeAll user.id d.now sessions)

/-! ## Runs -/

/-- The sessions and the requests under way.  `commits` counts the writes that have
been committed, and `logoutAlls` has the number of each logout-all. -/
structure AuthState where
  sessions : SessionTable
  pending : List AuthWrite
  commits : Nat
  logoutAlls : List (Uuid × Nat)

/-- Before the first request. -/
def AuthState.init : AuthState := ⟨.empty, [], 0, []⟩

/-- A request comes in at some time, commits, or goes away. -/
inductive AuthAction where
  | read (request : AuthRequest) (now : DateTime)
  | commit (i : Nat) (d : AuthDraw)
  | abort (i : Nat)

/-- A logout-all that commits is noted. -/
def AuthWrite.noted (commits : Nat) : AuthWrite → List (Uuid × Nat)
  | logoutAll user => [(user.id, commits)]
  | _ => []

/-- The commit of a request under way; one that raises is rolled back. -/
def AuthState.commit (host : AuthHost) (s : AuthState) (i : Nat) (d : AuthDraw)
    (w : AuthWrite) : AuthState :=
  match w.apply host s.commits d s.sessions with
  | none => { s with pending := s.pending.eraseIdx i }
  | some sessions =>
      { sessions := sessions
        pending := s.pending.eraseIdx i
        commits := s.commits + 1
        logoutAlls := w.noted s.commits ++ s.logoutAlls }

/-- The steps. -/
def authStep (host : AuthHost) (users : UserTable) (s : AuthState) :
    AuthAction → Option AuthState
  | .read request now =>
      match authenticate host users s.sessions s.commits now request with
      | .error _ => some s
      | .ok w => some { s with pending := s.pending ++ [w] }
  | .commit i d => (s.pending[i]?).map (s.commit host i d)
  | .abort i =>
      (s.pending[i]?).map (fun _ => { s with pending := s.pending.eraseIdx i })

/-- Requests in any order. -/
def authRequests (host : AuthHost) (users : UserTable) :
    Machine AuthState AuthAction where
  step := authStep host users

/-! ## What a write does to the sessions -/

section Writes

variable {host : AuthHost} {sessions t : SessionTable} {row : AuthSession}

/-- The session that a write inserts. -/
def AuthWrite.issued (host : AuthHost) (commits : Nat) (d : AuthDraw) :
    AuthWrite → Option AuthSession
  | login user => some (issueSession host user commits d)
  | refresh user _ loginAt _ => some (issueSession host user loginAt d)
  | _ => none

/-- The sessions that a write leaves, apart from the one it inserts. -/
def AuthWrite.revokes (host : AuthHost) (d : AuthDraw) (sessions : SessionTable) :
    AuthWrite → SessionTable
  | login _ => sessions
  | refresh _ c _ _ => revokeToken host c d.now sessions
  | logout c => revokeToken host c d.now sessions
  | logoutAll user => revokeAll user.id d.now sessions

/-- A write revokes and inserts. -/
theorem apply_eq (w : AuthWrite) (commits : Nat) (d : AuthDraw) :
    w.apply host commits d sessions =
      match w.issued host commits d with
      | none => some (w.revokes host d sessions)
      | some row => insertSession row (w.revokes host d sessions) := by
  cases w <;> rfl

theorem mem_revoked {p : AuthSession → Bool} {now : DateTime}
    (h : row ∈ sessions.modifyWhere p (AuthSession.revoke now) (tokenHash_revoke now)) :
    ∃ r ∈ sessions, row = r ∨ row = r.revoke now := by
  obtain ⟨r, hr, rfl⟩ := Table.mem_modifyWhere.mp h
  by_cases hp : p r = true
  · exact ⟨r, hr, Or.inr (if_pos hp)⟩
  · exact ⟨r, hr, Or.inl (if_neg hp)⟩

/-- No session comes up, and none is live again. -/
theorem mem_revokes {w : AuthWrite} {d : AuthDraw}
    (h : row ∈ w.revokes host d sessions) :
    ∃ r ∈ sessions, row = r ∨ row = r.revoke d.now := by
  have htoken : ∀ c, row ∈ revokeToken host c d.now sessions →
      ∃ r ∈ sessions, row = r ∨ row = r.revoke d.now := by
    intro c hc
    unfold revokeToken at hc
    cases hraw : c.rawToken with
    | none =>
        rw [hraw] at hc
        exact ⟨row, hc, Or.inl rfl⟩
    | some raw =>
        rw [hraw] at hc
        exact mem_revoked hc
  cases w with
  | login user => exact ⟨row, h, Or.inl rfl⟩
  | refresh user c loginAt readAt => exact htoken c h
  | logout c => exact htoken c h
  | logoutAll user => exact mem_revoked h

/-- After a logout-all no session of the user is live. -/
theorem revokedAt_of_revokeAll {userId : Uuid} {now : DateTime}
    (h : row ∈ revokeAll userId now sessions) (huser : row.userId = userId) :
    row.revokedAt ≠ none := by
  obtain ⟨r, hr, rfl⟩ := Table.mem_modifyWhere.mp h
  by_cases hp : (decide (r.userId = userId) && r.revokedAt.isNone) = true
  · rw [if_pos hp]
    exact Option.some_ne_none now
  · rw [if_neg hp] at huser ⊢
    intro hnone
    exact hp (by simp [huser, hnone])

/-- The token of a new session is not taken. -/
theorem insertSession_eq_some_iff :
    insertSession row sessions = some t ↔
      sessions.find? row.tokenHash = none ∧ sessions.put row = t := by
  unfold insertSession
  cases sessions.find? row.tokenHash <;> simp

theorem find?_revokes (w : AuthWrite) (d : AuthDraw) (hash : String) :
    (w.revokes host d sessions).find? hash = none ↔ sessions.find? hash = none := by
  have hmodify : ∀ (p : AuthSession → Bool),
      (sessions.modifyWhere p (AuthSession.revoke d.now) (tokenHash_revoke d.now)).find? hash =
        none ↔ sessions.find? hash = none := by
    intro p
    rw [Table.find?_modifyWhere, Option.map_eq_none_iff]
  have htoken : ∀ c, (revokeToken host c d.now sessions).find? hash = none ↔
      sessions.find? hash = none := by
    intro c
    unfold revokeToken
    cases c.rawToken with
    | none => exact Iff.rfl
    | some raw => exact hmodify _
  cases w with
  | login user => exact Iff.rfl
  | refresh user c loginAt readAt => exact htoken c
  | logout c => exact htoken c
  | logoutAll user => exact hmodify _

/-- The sessions after a write. -/
theorem mem_apply {w : AuthWrite} {commits : Nat} {d : AuthDraw}
    (happly : w.apply host commits d sessions = some t) (h : row ∈ t) :
    (∃ r ∈ sessions, row = r ∨ row = r.revoke d.now) ∨
      (w.issued host commits d = some row ∧ sessions.find? row.tokenHash = none) := by
  rw [apply_eq] at happly
  cases hissued : w.issued host commits d with
  | none =>
      rw [hissued] at happly
      obtain rfl := Option.some.inj happly
      exact Or.inl (mem_revokes h)
  | some new =>
      rw [hissued] at happly
      obtain ⟨hfree, rfl⟩ := insertSession_eq_some_iff.mp happly
      rcases Table.mem_put.mp h with rfl | ⟨hold, _⟩
      · exact Or.inr ⟨rfl, (find?_revokes w d _).mp hfree⟩
      · exact Or.inl (mem_revokes hold)

/-- A write that issues a session under a free token goes through. -/
theorem apply_of_issued {w : AuthWrite} {commits : Nat} {d : AuthDraw}
    (hissued : w.issued host commits d = some row)
    (hfree : sessions.find? row.tokenHash = none) :
    ∃ t, w.apply host commits d sessions = some t ∧ row ∈ t := by
  refine ⟨(w.revokes host d sessions).put row, ?_, Table.mem_put.mpr (Or.inl rfl)⟩
  rw [apply_eq, hissued]
  exact insertSession_eq_some_iff.mpr ⟨(find?_revokes w d _).mpr hfree, rfl⟩

end Writes

/-! ## The sessions a logout-all ends -/

section Ended

variable (host : AuthHost) (users : UserTable)

/-- No session authenticates whose chain of refreshes begins at a login that was
committed before a logout-all of its user. -/
def LogoutAllEnds (s : AuthState) : Prop :=
  ∀ c now row user, currentSession host users s.sessions c now = .ok (row, user) →
    ∀ n, (user.id, n) ∈ s.logoutAlls → ¬ row.loginAt < n

/-- The same about the rows: each that is not revoked is younger than the
logout-alls of its user. -/
def LiveAreYounger (s : AuthState) : Prop :=
  ∀ row ∈ s.sessions, row.revokedAt = none →
    ∀ n, (row.userId, n) ∈ s.logoutAlls → n ≤ row.loginAt

/-- A user who may log in. -/
structure ActiveUser (user : UserRow) : Prop where
  found : users.find? user.id = some user
  active : user.status = "active"

/-- What is true of a session row, revoked or not. -/
structure SessionFits (commits : Nat) (row : AuthSession) : Prop where
  token : ∃ raw, raw ≠ "" ∧ host.sha256 raw = row.tokenHash
  owner : ∃ user, user.id = row.userId ∧ ActiveUser users user
  loginAt : row.loginAt < commits

/-- What is true of a request under way: a refresh was let in with a session that no
logout-all had ended. -/
def WriteFits (s : AuthState) : AuthWrite → Prop
  | .login user => ActiveUser users user
  | .refresh user _ loginAt readAt =>
      ActiveUser users user ∧ loginAt < readAt ∧ readAt ≤ s.commits ∧
        ∀ n, (user.id, n) ∈ s.logoutAlls → n < readAt → n ≤ loginAt
  | _ => True

/-- What every step keeps. -/
structure AuthKept (s : AuthState) : Prop where
  sessions : ∀ row ∈ s.sessions, SessionFits host users s.commits row
  noted : ∀ l ∈ s.logoutAlls, l.2 < s.commits
  pending : ∀ w ∈ s.pending, WriteFits users s w

variable {host} {users}

theorem authKept_init : AuthKept host users .init where
  sessions := fun _ h => by cases h
  noted := fun _ h => by cases h
  pending := fun _ h => by cases h

theorem liveAreYounger_init : LiveAreYounger .init := fun _ h => by cases h

theorem currentSession_eq_ok {sessions : SessionTable} {c : Credentials}
    {now : DateTime} {row : AuthSession} {user : UserRow}
    (h : currentSession host users sessions c now = .ok (row, user)) :
    row ∈ sessions ∧ row.revokedAt = none ∧ user.id = row.userId ∧
      ActiveUser users user := by
  unfold currentSession at h
  cases hraw : c.rawToken with
  | none =>
      simp only [hraw] at h
      cases h
  | some raw =>
      simp only [hraw] at h
      cases hrow : sessions.find? (host.sha256 raw) with
      | none =>
          simp only [hrow] at h
          cases h
      | some r =>
          simp only [hrow] at h
          by_cases hvalid : isSessionValid r.expiresAt r.revokedAt now = true
          · rw [if_pos hvalid] at h
            cases huser : users.find? r.userId with
            | none =>
                simp only [huser] at h
                cases h
            | some u =>
                simp only [huser] at h
                by_cases hactive : u.status = "active"
                · rw [if_pos hactive] at h
                  cases h
                  have hid : user.id = row.userId := Table.key_of_find? huser
                  unfold isSessionValid at hvalid
                  rw [Bool.and_eq_true, Option.isNone_iff_eq_none] at hvalid
                  exact ⟨(Table.find?_eq_some_iff.mp hrow).1, hvalid.1, hid,
                    hid ▸ huser, hactive⟩
                · rw [if_neg hactive] at h
                  cases h
          · rw [if_neg hvalid] at h
            cases h

/-- A session that is not revoked authenticates, for as long as it has not run
out. -/
theorem currentSession_of_live {sessions : SessionTable} {commits : Nat}
    {row : AuthSession} (hfits : SessionFits host users commits row)
    (hrow : row ∈ sessions) (hlive : row.revokedAt = none) :
    ∃ c user, user.id = row.userId ∧ ∀ now, now < row.expiresAt →
      currentSession host users sessions c now = .ok (row, user) := by
  obtain ⟨raw, hne, hhash⟩ := hfits.token
  obtain ⟨user, hid, huser⟩ := hfits.owner
  refine ⟨⟨some raw, none⟩, user, hid, fun now hnow => ?_⟩
  have hraw : Credentials.rawToken ⟨some raw, none⟩ = some raw := if_neg hne
  have hvalid : isSessionValid row.expiresAt row.revokedAt now = true := by
    unfold isSessionValid
    rw [hlive, Bool.and_eq_true]
    exact ⟨rfl, decide_eq_true hnow⟩
  unfold currentSession
  simp only [hraw, hhash, Table.find?_key hrow, if_pos hvalid, ← hid, huser.found,
    if_pos huser.active]

theorem logoutAllEnds_iff {s : AuthState} (hs : AuthKept host users s) :
    LogoutAllEnds host users s ↔ LiveAreYounger s := by
  constructor
  · intro hends row hrow hlive n hn
    obtain ⟨c, user, hid, hcurrent⟩ :=
      currentSession_of_live (hs.sessions row hrow) hrow hlive
    have hnow := hcurrent (row.expiresAt - 1) (Int.sub_lt_self _ Int.one_pos)
    have hnot := hends c _ row user hnow n (hid ▸ hn)
    omega
  · intro hyounger c now row user hcurrent n hn
    obtain ⟨hrow, hlive, hid, _⟩ := currentSession_eq_ok hcurrent
    have hle := hyounger row hrow hlive n (hid ▸ hn)
    omega

/-! ## Steps -/

/-- The step is not the commit of a refresh that a logout-all of its user has
overtaken: one that was committed after the refresh had read its session.  A refresh
whose new token is taken commits nothing. -/
def inTime (host : AuthHost) (s : AuthState) : AuthAction → Bool
  | .commit i d =>
      match s.pending[i]? with
      | some (.refresh user _ _ readAt) =>
          (s.sessions.find? (host.sha256 d.rawToken)).isSome ||
            s.logoutAlls.all (fun l => l.1 ≠ user.id || l.2 < readAt)
      | _ => true
  | _ => true

theorem sessionFits_revoke {commits : Nat} {row : AuthSession} {now : DateTime}
    (h : SessionFits host users commits row) :
    SessionFits host users commits (row.revoke now) where
  token := h.token
  owner := h.owner
  loginAt := h.loginAt

theorem sessionFits_mono {commits commits' : Nat} {row : AuthSession}
    (hle : commits ≤ commits') (h : SessionFits host users commits row) :
    SessionFits host users commits' row where
  token := h.token
  owner := h.owner
  loginAt := Nat.lt_of_lt_of_le h.loginAt hle

/-- A session is issued to an active user, of a login that has been committed. -/
theorem sessionFits_issued {s : AuthState} {w : AuthWrite} (hw : WriteFits users s w)
    {d : AuthDraw} {row : AuthSession} (h : w.issued host s.commits d = some row) :
    SessionFits host users (s.commits + 1) row := by
  cases w with
  | login user =>
      obtain rfl := Option.some.inj h
      exact ⟨⟨d.rawToken, d.rawToken_ne, rfl⟩, ⟨user, rfl, hw⟩, Nat.lt_succ_self _⟩
  | refresh user c loginAt readAt =>
      obtain rfl := Option.some.inj h
      obtain ⟨huser, hlt, hle, _⟩ := hw
      exact ⟨⟨d.rawToken, d.rawToken_ne, rfl⟩, ⟨user, rfl, huser⟩,
        show loginAt < s.commits + 1 by omega⟩
  | logout c => cases h
  | logoutAll user => cases h

theorem activeUser_login {email password : String} {user : UserRow}
    (h : loginUser host users email password = .ok user) : ActiveUser users user := by
  unfold loginUser at h
  cases hfound : users.rows.find? (fun user => host.sameEmail user.email email) with
  | none =>
      simp only [hfound] at h
      cases h
  | some u =>
      simp only [hfound] at h
      cases hstored : u.passwordHash with
      | none =>
          simp only [hstored] at h
          cases h
      | some stored =>
          simp only [hstored] at h
          split_ifs at h with hpassword hactive
          cases h
          exact ⟨Table.find?_key (List.mem_of_find?_eq_some hfound), hactive⟩

/-- What is let in fits: the session it was let in with was live. -/
theorem writeFits_authenticate {s : AuthState} (hs : AuthKept host users s)
    (hyounger : LiveAreYounger s) {request : AuthRequest} {now : DateTime}
    {w : AuthWrite}
    (h : authenticate host users s.sessions s.commits now request = .ok w) :
    WriteFits users s w := by
  cases request with
  | login email password =>
      obtain ⟨user, huser, rfl⟩ := map_eq_ok.mp h
      exact activeUser_login huser
  | refresh c =>
      obtain ⟨⟨row, user⟩, hcurrent, rfl⟩ := map_eq_ok.mp h
      obtain ⟨hrow, hlive, hid, huser⟩ := currentSession_eq_ok hcurrent
      have hlt : row.loginAt < s.commits := (hs.sessions row hrow).loginAt
      exact ⟨huser, hlt, Nat.le_refl _,
        fun n hn _ => hyounger row hrow hlive n (hid ▸ hn)⟩
  | logout c =>
      obtain ⟨_, _, rfl⟩ := map_eq_ok.mp h
      trivial
  | logoutAll c =>
      obtain ⟨_, _, rfl⟩ := map_eq_ok.mp h
      trivial

theorem mem_noted {w : AuthWrite} {commits : Nat} {l : Uuid × Nat}
    (h : l ∈ w.noted commits) : ∃ user, w = .logoutAll user ∧ l = (user.id, commits) := by
  cases w with
  | logoutAll user => exact ⟨user, rfl, List.mem_singleton.mp h⟩
  | login user => cases h
  | refresh user c loginAt readAt => cases h
  | logout c => cases h

/-- A request under way is not touched by the commit of another. -/
theorem writeFits_commit {s t : AuthState} {w v : AuthWrite}
    (hcommits : t.commits = s.commits + 1)
    (hnoted : t.logoutAlls = w.noted s.commits ++ s.logoutAlls)
    (h : WriteFits users s v) : WriteFits users t v := by
  cases v with
  | login user => exact h
  | refresh user c loginAt readAt =>
      obtain ⟨huser, hlt, hle, hold⟩ := h
      refine ⟨huser, hlt, by omega, fun n hn hread => ?_⟩
      rw [hnoted, List.mem_append] at hn
      rcases hn with hnew | hn
      · obtain ⟨_, _, heq⟩ := mem_noted hnew
        have hn : n = s.commits := congrArg Prod.snd heq
        omega
      · exact hold n hn hread
  | logout c => trivial
  | logoutAll user => trivial

theorem authKept_commit {s : AuthState} (hs : AuthKept host users s) {i : Nat}
    {d : AuthDraw} {w : AuthWrite} (hw : s.pending[i]? = some w) :
    AuthKept host users (s.commit host i d w) := by
  have hfits : WriteFits users s w := hs.pending w (List.mem_of_getElem? hw)
  unfold AuthState.commit
  cases happly : w.apply host s.commits d s.sessions with
  | none =>
      exact ⟨hs.sessions, hs.noted,
        fun v hv => hs.pending v (List.mem_of_mem_eraseIdx hv)⟩
  | some sessions =>
      refine ⟨fun row hrow => ?_, fun l hl => ?_, fun v hv => ?_⟩
      · rcases mem_apply happly hrow with ⟨r, hr, rfl | rfl⟩ | ⟨hissued, _⟩
        · exact sessionFits_mono (Nat.le_succ _) (hs.sessions row hr)
        · exact sessionFits_revoke
            (sessionFits_mono (Nat.le_succ _) (hs.sessions r hr))
        · exact sessionFits_issued hfits hissued
      · show l.2 < s.commits + 1
        rcases List.mem_append.mp hl with hnew | hold
        · obtain ⟨_, _, rfl⟩ := mem_noted hnew
          exact Nat.lt_succ_self _
        · exact Nat.lt_succ_of_lt (hs.noted l hold)
      · exact writeFits_commit rfl rfl (hs.pending v (List.mem_of_mem_eraseIdx hv))

theorem authKept_step {s t : AuthState} {a : AuthAction} (hs : AuthKept host users s)
    (hyounger : LiveAreYounger s)
    (hstep : (authRequests host users).step s a = some t) :
    AuthKept host users t := by
  have hstep : authStep host users s a = some t := hstep
  cases a with
  | read request now =>
      simp only [authStep] at hstep
      cases hread : authenticate host users s.sessions s.commits now request with
      | error e =>
          simp only [hread] at hstep
          obtain rfl := Option.some.inj hstep
          exact hs
      | ok w =>
          simp only [hread] at hstep
          obtain rfl := Option.some.inj hstep
          refine ⟨hs.sessions, hs.noted, fun v hv => ?_⟩
          rcases List.mem_append.mp hv with hold | hnew
          · exact hs.pending v hold
          · rw [List.mem_singleton.mp hnew]
            exact writeFits_authenticate hs hyounger hread
  | commit i d =>
      obtain ⟨w, hw, rfl⟩ := Option.map_eq_some_iff.mp hstep
      exact authKept_commit hs hw
  | abort i =>
      obtain ⟨w, _, rfl⟩ := Option.map_eq_some_iff.mp hstep
      exact ⟨hs.sessions, hs.noted,
        fun v hv => hs.pending v (List.mem_of_mem_eraseIdx hv)⟩

/-- A commit keeps the live sessions younger if the session it issues is. -/
theorem liveAreYounger_commit {s : AuthState} (hyounger : LiveAreYounger s) {i : Nat}
    {d : AuthDraw} {w : AuthWrite}
    (hw : ∀ row, w.issued host s.commits d = some row →
      s.sessions.find? row.tokenHash = none →
      ∀ n, (row.userId, n) ∈ s.logoutAlls → n ≤ row.loginAt) :
    LiveAreYounger (s.commit host i d w) := by
  unfold AuthState.commit
  cases happly : w.apply host s.commits d s.sessions with
  | none => exact hyounger
  | some sessions =>
      intro row hrow hlive n hn
      rcases List.mem_append.mp hn with hnew | hold
      · obtain ⟨user, rfl, heq⟩ := mem_noted hnew
        obtain rfl : revokeAll user.id d.now s.sessions = sessions :=
          Option.some.inj happly
        exact absurd hlive (revokedAt_of_revokeAll hrow (congrArg Prod.fst heq))
      · rcases mem_apply happly hrow with ⟨r, hr, rfl | rfl⟩ | ⟨hissued, hfree⟩
        · exact hyounger row hr hlive n hold
        · cases hlive
        · exact hw row hissued hfree n hold

/-- **One step.**  Only a refresh that a logout-all has overtaken gives a session of
before a second life. -/
theorem survivors_step {s t : AuthState} {a : AuthAction}
    (hs : AuthKept host users s) (hyounger : LiveAreYounger s)
    (hstep : (authRequests host users).step s a = some t) :
    LiveAreYounger t ↔ inTime host s a = true := by
  have hstep : authStep host users s a = some t := hstep
  cases a with
  | read request now =>
      simp only [authStep] at hstep
      have ht : LiveAreYounger t := by
        cases hread : authenticate host users s.sessions s.commits now request with
        | error e =>
            simp only [hread] at hstep
            obtain rfl := Option.some.inj hstep
            exact hyounger
        | ok w =>
            simp only [hread] at hstep
            obtain rfl := Option.some.inj hstep
            exact hyounger
      exact ⟨fun _ => rfl, fun _ => ht⟩
  | abort i =>
      obtain ⟨w, _, rfl⟩ := Option.map_eq_some_iff.mp hstep
      exact ⟨fun _ => rfl, fun _ => hyounger⟩
  | commit i d =>
      obtain ⟨w, hw, rfl⟩ := Option.map_eq_some_iff.mp hstep
      have hfits : WriteFits users s w := hs.pending w (List.mem_of_getElem? hw)
      cases w with
      | login user =>
          refine ⟨fun _ => by simp only [inTime, hw], fun _ => ?_⟩
          refine liveAreYounger_commit hyounger (fun row hissued _ n hn => ?_)
          obtain rfl := Option.some.inj hissued
          exact Nat.le_of_lt (hs.noted _ hn)
      | logout c =>
          refine ⟨fun _ => by simp only [inTime, hw], fun _ => ?_⟩
          exact liveAreYounger_commit hyounger (fun row hissued => by cases hissued)
      | logoutAll user =>
          refine ⟨fun _ => by simp only [inTime, hw], fun _ => ?_⟩
          exact liveAreYounger_commit hyounger (fun row hissued => by cases hissued)
      | refresh user c loginAt readAt =>
          obtain ⟨_, hlt, _, hread⟩ := hfits
          simp only [inTime, hw, Bool.or_eq_true, List.all_eq_true, decide_eq_true_eq]
          constructor
          · intro ht
            cases htaken : s.sessions.find? (host.sha256 d.rawToken) with
            | some row => exact Or.inl rfl
            | none =>
                -- the new session is live, and as old as the one it comes from
                refine Or.inr (fun l hl => ?_)
                by_cases hid : l.1 = user.id
                · obtain ⟨sessions, happly, hrow⟩ : ∃ sessions,
                      (AuthWrite.refresh user c loginAt readAt).apply host s.commits d
                        s.sessions = some sessions ∧
                      issueSession host user loginAt d ∈ sessions :=
                    apply_of_issued rfl htaken
                  simp only [AuthState.commit, happly] at ht
                  have hmem : (user.id, l.2) ∈ s.logoutAlls := hid ▸ hl
                  have hle : l.2 ≤ loginAt := ht _ hrow rfl l.2
                    (List.mem_append_right _ hmem)
                  exact Or.inr (by omega)
                · exact Or.inl hid
          · intro hin
            refine liveAreYounger_commit hyounger (fun row hissued hfree n hn => ?_)
            obtain rfl := Option.some.inj hissued
            rcases hin with htaken | hall
            · rw [show s.sessions.find? (host.sha256 d.rawToken) = none from hfree]
                at htaken
              cases htaken
            · rcases hall (user.id, n) hn with hne | hbefore
              · exact absurd rfl hne
              · exact hread n hn hbefore

end Ended

/-! ## Every run -/

/-- In a run of requests, from a database without sessions, no session of before a
logout-all authenticates, in any of the states of the run, exactly if no refresh
comes to its commit after a logout-all of its user that has been committed since the
refresh read its session. -/
theorem logoutAll_run (host : AuthHost) (users : UserTable) (as : List AuthAction)
    (t : AuthState) (hrun : (authRequests host users).exec .init as = some t) :
    (authRequests host users).Along (fun s a => inTime host s a = true) .init as ↔
      ∀ pre post s, as = pre ++ post →
        (authRequests host users).exec .init pre = some s →
        LogoutAllEnds host users s := by
  have hstart : LogoutAllEnds host users .init :=
    (logoutAllEnds_iff authKept_init).mpr liveAreYounger_init
  refine Machine.along_iff_under (I := AuthKept host users) ?_ ?_ authKept_init hstart
    hrun
  · intro s a r hs hends hstep
    exact authKept_step hs ((logoutAllEnds_iff hs).mp hends) hstep
  · intro s a r hs hends hstep
    have hyounger : LiveAreYounger s := (logoutAllEnds_iff hs).mp hends
    have hr : AuthKept host users r := authKept_step hs hyounger hstep
    rw [logoutAllEnds_iff hr]
    exact survivors_step hs hyounger hstep

/-! ## A refresh that is overtaken -/

/-- A host for examples. -/
def authHost : AuthHost where
  sha256 := id
  verifyPassword password stored := password = stored
  sameEmail email email' := email = email'
  sessionTtlHours := 12

/-- One user. -/
def oneUser : UserTable :=
  ⟨[⟨1, "a", some "secret", "active"⟩], by decide⟩

/-- What is drawn in an example. -/
def drawOf (rawToken : String) (h : rawToken ≠ "") : AuthDraw := ⟨0, 0, rawToken, h⟩

/-- A login, and a refresh and a logout-all with its token; the refresh has been let
in when the logout-all commits. -/
def overtakenRefresh : List AuthAction :=
  [.read (.login "a" "secret") 0, .commit 0 (drawOf "t" (by decide)),
    .read (.refresh ⟨some "t", none⟩) 1, .read (.logoutAll ⟨some "t", none⟩) 1,
    .commit 1 (drawOf "x" (by decide)), .commit 0 (drawOf "u" (by decide))]

/-- The same with the refresh first: its token is ended with the others. -/
def orderlyRefresh : List AuthAction :=
  [.read (.login "a" "secret") 0, .commit 0 (drawOf "t" (by decide)),
    .read (.refresh ⟨some "t", none⟩) 1, .read (.logoutAll ⟨some "t", none⟩) 1,
    .commit 0 (drawOf "u" (by decide)), .commit 0 (drawOf "x" (by decide))]

/-- Whether a token authenticates at the end of a run, with the number of its login,
and the logout-alls of the run. -/
def tokenAfter (as : List AuthAction) (rawToken : String) :
    Option (Option Nat × List (Uuid × Nat)) :=
  ((authRequests authHost oneUser).exec .init as).map (fun s =>
    ((currentSession authHost oneUser s.sessions ⟨some rawToken, none⟩ 2).toOption.map
      (fun r => r.1.loginAt), s.logoutAlls))

theorem logoutAll_run_orderly :
    ∃ t, (authRequests authHost oneUser).exec .init orderlyRefresh = some t ∧
      (1, 2) ∈ t.logoutAlls ∧ LogoutAllEnds authHost oneUser t := by
  have htoken : tokenAfter orderlyRefresh "u" = some (none, [(1, 2)]) := by
    decide +kernel
  have hin : (authRequests authHost oneUser).Along
      (fun s a => inTime authHost s a = true) .init orderlyRefresh := by
    decide +kernel
  obtain ⟨t, ht, heq⟩ := Option.map_eq_some_iff.mp htoken
  have hnoted : t.logoutAlls = [(1, 2)] := congrArg Prod.snd heq
  have hends := (logoutAll_run authHost oneUser orderlyRefresh t ht).mp hin
    orderlyRefresh [] t (List.append_nil _).symm ht
  exact ⟨t, ht, by rw [hnoted]; decide, hends⟩

/-- The token of the overtaken refresh authenticates after the logout-all, and comes
from the login before. -/
theorem not_logoutAll :
    ∃ t row user, (authRequests authHost oneUser).exec .init overtakenRefresh = some t ∧
      currentSession authHost oneUser t.sessions ⟨some "u", none⟩ 2 = .ok (row, user) ∧
      (∃ n, (user.id, n) ∈ t.logoutAlls ∧ row.loginAt < n) ∧
      ¬ LogoutAllEnds authHost oneUser t := by
  have htoken : tokenAfter overtakenRefresh "u" = some (some 0, [(1, 1)]) := by
    decide +kernel
  obtain ⟨t, ht, heq⟩ := Option.map_eq_some_iff.mp htoken
  have hnoted : t.logoutAlls = [(1, 1)] := congrArg Prod.snd heq
  have hcurrent := congrArg Prod.fst heq
  cases hsession : currentSession authHost oneUser t.sessions ⟨some "u", none⟩ 2 with
  | error e =>
      rw [hsession] at hcurrent
      cases hcurrent
  | ok r =>
      obtain ⟨row, user⟩ := r
      rw [hsession] at hcurrent
      have hlogin : row.loginAt = 0 := Option.some.inj hcurrent
      obtain ⟨_, _, _, huser⟩ := currentSession_eq_ok hsession
      have hid : user.id = 1 := by
        have hmem : user ∈ oneUser := (Table.find?_eq_some_iff.mp huser.found).1
        rw [List.mem_singleton.mp hmem]
      have hlt : (user.id, 1) ∈ t.logoutAlls ∧ row.loginAt < 1 := by
        rw [hnoted, hid, hlogin]
        decide
      exact ⟨t, row, user, ht, hsession, ⟨1, hlt⟩,
        fun hends => hends _ _ row user hsession 1 hlt.1 hlt.2⟩

end Imagin4.Ports
