import CopyTrading.Members.Schema

/-!
# Members.Routes — membership, account requests and session ends as programs of SQL statements

`orgs.py`, the account requests of `portal_identity.py`, the session ends of `auth.py` and `mpin.py`, and the
handshake of `ws.py`.  A `SELECT … FOR UPDATE` and an `UPDATE` of several rows find their rows when they begin and
take them one by one: a row that is locked by another transaction is waited for and looked at again, a row that has
come since is not found.  What a request learns outside the database is part of the request: the clock, the answer
of the MPIN gate, the password checks of a session end.  Audit, notification, the welcome bonus and the JSON of the
answer are left out.
-/

namespace Members

/-! ### Helpers -/

/-- `raise HTTPException` before a transaction. -/
def refuse (status : ℕ) (detail : String) : Prog := .done (.error status detail)

/-- `raise HTTPException` inside a transaction, which it rolls back. -/
def rollback (status : ℕ) (detail : String) : Prog := .abort (.error status detail)

/-- The session cookie. -/
structure Caller where
  user : ℕ
  version : ℕ
  pin : Bool

/-- `require_half_session`. -/
def requireHalfSession (c : Caller) (p : Prog) : Prog :=
  .select fun db => if db.sessionVersion c.user = some c.version then p else refuse 401 "Session expired"

/-- `require_user`. -/
def requireUser (c : Caller) (p : Prog) : Prog :=
  requireHalfSession c (if c.pin then p else refuse 401 "MPIN required")

/-- `require_org_role`. -/
def requireOrgRole (c : Caller) (org : ℕ) (min : Role) (k : Role → Prog) : Prog :=
  requireUser c <| .select fun db =>
    match db.memberships.find ⟨org, c.user⟩ with
    | none => refuse 404 "Not found"
    | some m => if m.role.rank < min.rank then refuse 403 "Insufficient role" else k m.role

/-- `require_investor`. -/
def requireInvestor (c : Caller) (org : ℕ) (p : Prog) : Prog :=
  requireOrgRole c org .investor fun role => if role ≠ .investor then refuse 403 "Insufficient role" else p

/-- `except LedgerError: raise HTTPException(400)`. -/
def attempt {α : Type} (x : Except String α) (k : α → Prog) : Prog :=
  match x with
  | .error e => refuse 400 e
  | .ok a => k a

/-- What a gate outside the database answers; `none` when it passes. -/
def gate (refusal : Option (ℕ × String)) (p : Prog) : Prog :=
  match refusal with
  | some (status, detail) => refuse status detail
  | none => p

/-! ### Members -/

/-- `join_org`, at the time `now`. -/
def joinOrg (c : Caller) (tokenHash : String) (now : ℚ) : Prog :=
  let invite (db : Db) : Option Invite :=
    (db.invites.find tokenHash).filter fun i => !i.consumed && Decidable.decide (now < i.expiresAt)
  requireUser c <| .exec
    (fun db _ => match invite db with
      | some _ => ⟨[.consume tokenHash], [.invite tokenHash]⟩
      | none => ⟨[], []⟩)
    (fun db _ => match invite db with
      | none => rollback 410 "Invite is invalid, expired, or already used"
      | some i =>
        let who : Who := ⟨i.org, c.user⟩
        .exec
          (fun db id => match db.memberships.find who with
            | none => ⟨[.join ⟨who, i.role, id⟩], [.member who]⟩
            | some _ => ⟨[], [.member who]⟩)
          (fun db _ => match db.memberships.find who with
            | none => .commit (.done .ok)
            | some _ => rollback 409 "Already a member"))

/-- The admins of an org. -/
def Db.admins (db : Db) (org : ℕ) : List Membership :=
  db.memberships.rows.filter fun m => m.who.org = org && m.role = .admin

/-- The row `m` is there, under its tuple. -/
def Db.current (db : Db) (m : Membership) : Option Membership :=
  (db.memberships.find m.who).filter fun m' => m'.tuple = m.tuple

/-- The rows that a locking query has found are locked one by one; those that are admins still are returned. -/
def lockEach (k : List ℕ → Prog) : List Membership → List ℕ → Prog
  | [], ids => k ids
  | m :: ms, ids =>
    .exec (fun _ _ => ⟨[], [.member m.who]⟩) fun db _ =>
      lockEach k ms (if (db.current m).any fun m' => m'.role = .admin then ids ++ [m.who.user] else ids)

/-- `SELECT user_id … WHERE org_id = … AND role = 'admin' FOR UPDATE`. -/
def lockAdmins (org : ℕ) (k : List ℕ → Prog) : Prog := .select fun db => lockEach k (db.admins org) []

/-- `SELECT role … WHERE org_id = … AND user_id = … FOR UPDATE`. -/
def lockMember (who : Who) (k : Option Role → Prog) : Prog :=
  .select fun db =>
    match db.memberships.find who with
    | none => k none
    | some m =>
      .exec (fun _ _ => ⟨[], [.member who]⟩) fun db _ => k ((db.current m).map Membership.role)

/-- The open requests of a member, by id. -/
def Db.openRequests (db : Db) (who : Who) : List ℕ :=
  (db.requests.rows.filter fun r => r.who = who && r.isOpen).map AccountRequest.id

/-- The requests that an `UPDATE` has found are cancelled one by one, if they are open still. -/
def cancelEach (p : Prog) : List ℕ → Prog
  | [] => p
  | id :: ids =>
    .exec
      (fun db _ => ⟨if (db.requests.find id).any AccountRequest.isOpen then [.close id .cancelled] else [],
        [.request id]⟩)
      fun _ _ => cancelEach p ids

/-- `_cancel_open_account_requests`. -/
def cancelOpenAccountRequests (who : Who) (p : Prog) : Prog := .select fun db => cancelEach p (db.openRequests who)

/-- `patch_member`; an unknown role is `none`. -/
def patchMember (c : Caller) (org member : ℕ) (role : Option Role) : Prog :=
  let who : Who := ⟨org, member⟩
  requireOrgRole c org .admin fun _ =>
    match role with
    | none => refuse 400 "Unknown role"
    | some role =>
      lockAdmins org fun adminIds => lockMember who fun row =>
        match row with
        | none => rollback 404 "Member not found"
        | some old =>
          if old = .admin ∧ role ≠ .admin ∧ adminIds.length = 1 then
            rollback 409 "An org must keep at least one admin"
          else .exec (fun _ _ => ⟨[.role who role], [.member who]⟩) fun _ _ =>
            if role ≠ .investor then cancelOpenAccountRequests who (.commit (.done .ok)) else .commit (.done .ok)

/-- `remove_member`. -/
def removeMember (c : Caller) (org member : ℕ) : Prog :=
  let who : Who := ⟨org, member⟩
  requireOrgRole c org .viewer fun role =>
    if role ≠ .admin ∧ member ≠ c.user then refuse 403 "Insufficient role"
    else lockAdmins org fun adminIds => lockMember who fun row =>
      match row with
      | none => rollback 404 "Member not found"
      | some old =>
        if old = .admin ∧ adminIds.length = 1 then rollback 409 "An org must keep at least one admin"
        else .exec (fun _ _ => ⟨[.leave who], [.member who]⟩) fun _ _ =>
          cancelOpenAccountRequests who (.commit (.done (.closeFor who)))

/-- `create_invite`; the token is made before. -/
def createInvite (c : Caller) (org : ℕ) (role : Option Role) (tokenHash : String) (expiresAt : ℚ) : Prog :=
  requireOrgRole c org .admin fun _ =>
    match role with
    | none => refuse 400 "Invites can grant admin, viewer, or investor"
    | some role =>
      .auto (fun _ id => ⟨[.invite ⟨tokenHash, id, org, role, expiresAt, false⟩], [.invite tokenHash]⟩)
        fun _ _ => .done .ok

/-- `revoke_invite`. -/
def revokeInvite (c : Caller) (org id : ℕ) : Prog :=
  let hit (db : Db) : Option Invite := db.invites.rows.find? fun i => i.id = id && i.org = org
  requireOrgRole c org .admin fun _ =>
    .auto (fun db _ => match hit db with
        | some i => ⟨[.revoke i.tokenHash], [.invite i.tokenHash]⟩
        | none => ⟨[], []⟩)
      fun db _ => match hit db with
        | some _ => .done .ok
        | none => refuse 404 "Invite not found"

/-! ### Account requests -/

/-- `check_mt5_password`; what is no text is `none`. -/
def checkMt5Password (raw : Option String) (field : String) : Except String String :=
  match raw with
  | some s =>
    if 8 ≤ s.length ∧ s.length ≤ 32 ∧ (s.toList.all fun ch => '!' ≤ ch && ch ≤ '~') ∧ s.toList.any Char.isUpper ∧
        s.toList.any Char.isLower ∧ s.toList.any Char.isDigit then .ok s
    else .error (field ++ " must be 8-32 characters without spaces, with an " ++
      "upper-case letter, a lower-case letter and a digit")
  | none => .error (field ++ " must be 8-32 characters without spaces, with an " ++
      "upper-case letter, a lower-case letter and a digit")

/-- `AccountRequestBody`; an id or a number that is none is `none`. -/
structure AccountRequestBody where
  mpin : Option (ℕ × String)
  packageId : Option ℕ
  leverage : Option ℕ
  mainPassword : Option String
  investorPassword : Option String

/-- The accounts of an investor. -/
def Db.linkedAccounts (db : Db) (who : Who) : ℕ :=
  (db.accounts.rows.filter fun a => a.org = who.org && a.investor = some who.user).length

/-- `accounts_used`. -/
def Db.accountsUsed (db : Db) (who : Who) : ℕ := db.linkedAccounts who + (db.openRequests who).length

section Requests

-- `pid.seal` under the configured key
variable (sealWith : String → String)

/-- `request_account`. -/
def requestAccount (c : Caller) (org : ℕ) (body : AccountRequestBody) : Prog :=
  let who : Who := ⟨org, c.user⟩
  requireInvestor c org <| gate body.mpin <| .select fun db₁ =>
    if !db₁.config.kycApproved who then refuse 409 "verify your identity first"
    else .select fun db₂ =>
    if db₂.openRequests who ≠ [] then refuse 409 "a request is already open"
    else .select fun db₃ => .select fun db₄ =>
    if db₃.config.maxLiveAccounts org ≤ db₄.accountsUsed who then
      refuse 409 (Portal.accountLimitText (db₃.config.maxLiveAccounts org))
    else match body.packageId with
    | none => refuse 404 "Package not found"
    | some packageId => .select fun db₅ =>
      match (db₅.config.package packageId).filter fun p => p.org = org && p.enabled with
      | none => refuse 404 "Package not found"
      | some package =>
        if body.leverage.all (· ∉ package.leverageOptions) then
          refuse 400 ("leverage must be one of " ++ ", ".intercalate (package.leverageOptions.map toString))
        else
        attempt (checkMt5Password body.mainPassword "main_password") fun main =>
        attempt (checkMt5Password body.investorPassword "investor_password") fun investor =>
        if main = investor then refuse 400 "the investor password must differ from the main password"
        else .auto
          (fun db id => if db.openRequests who = [] then
            ⟨[.request ⟨id, who, .requested, some (sealWith main), some (sealWith investor), none,
              .inl rfl, nofun⟩],
              [.request id, .openRequest who]⟩ else ⟨[], []⟩)
          -- `account_requests_one_open`
          (fun db _ => if db.openRequests who = [] then .done .ok else refuse 409 "a request is already open")

end Requests

/-- `UPDATE account_requests … WHERE id = … AND org_id = … AND status = 'requested'`. -/
def Db.requestIs (db : Db) (id org : ℕ) : Bool := (db.requests.find id).any fun r => r.who.org = org && r.isOpen

/-- `cancel_account_request`. -/
def cancelAccountRequest (c : Caller) (org id : ℕ) : Prog :=
  requireInvestor c org <| .select fun db =>
    match (db.requests.find id).filter fun r => r.who = ⟨org, c.user⟩ with
    | none => refuse 404 "Request not found"
    | some r =>
      if !r.isOpen then refuse 409 ("request is already " ++ r.status.text)
      else .auto (fun db _ => if db.requestIs id org then ⟨[.close id .cancelled], [.request id]⟩ else ⟨[], []⟩)
        fun db _ => if db.requestIs id org then .done .ok else refuse 409 "decided by someone else"

/-- `_open_request`: the filer must be an investor here. -/
def openRequest (org id : ℕ) (k : AccountRequest → Prog) : Prog :=
  .select fun db =>
    match (db.requests.find id).filter fun r =>
        r.who.org = org && (db.memberships.find r.who).any fun m => m.role = .investor with
    | none => refuse 404 "Request not found"
    | some r => if r.isOpen then k r else refuse 409 ("request is already " ++ r.status.text)

/-- `link_account` with `mt5_only`, inside the caller's transaction. -/
def linkAccount (who : Who) (a : ℕ) (p : Prog) : Prog :=
  .select fun db₁ =>
    if (db₁.accounts.find a).any fun r => r.org = who.org && r.investor = some who.user then p
    else .select fun db₂ =>
      match (db₂.accounts.find a).filter fun r => r.org = who.org with
      | none => rollback 404 "Account not found in this workspace, or already linked"
      | some r =>
        if r.role = .master then rollback 400 "The master account cannot be linked to an investor"
        else if !r.mt5 then rollback 400 "Only an MT5 account can be linked here"
        else .select fun db₃ => .select fun db₄ =>
          if db₃.config.maxLiveAccounts who.org ≤ db₄.linkedAccounts who then
            rollback 409 (Portal.accountLimitText (db₃.config.maxLiveAccounts who.org))
          else
            let free (db : Db) : Bool := (db.accounts.find a).any fun r => r.org = who.org && r.investor = none
            .exec (fun db _ => if free db then ⟨[.owner a (some who.user)], [.account a]⟩ else ⟨[], []⟩)
              fun db _ => if free db then p else
                rollback 404 "Account not found in this workspace, or already linked"

/-- `FulfilBody`. -/
structure FulfilBody where
  mt5Login : Option ℕ
  mt5Server : String
  accountId : Option ℕ
  note : String

/-- `fulfil_request`. -/
def fulfilRequest (c : Caller) (org id : ℕ) (body : FulfilBody) : Prog :=
  requireOrgRole c org .admin fun _ =>
    match body.mt5Login.filter fun n => 0 < n && n ≤ 2 ^ 63 - 1 with
    | none => refuse 400 "mt5_login must be a whole number above zero"
    | some login =>
      attempt (Portal.cleanText body.mt5Server "mt5_server" 64 true) fun server =>
      attempt (Portal.cleanText body.note "note" 500 false) fun _ =>
      let server := server.getD ""
      openRequest org id fun r => .select fun db₁ =>
        if !db₁.config.kycApproved r.who then
          refuse 409 "the investor's verification is no longer approved; decide it again before fulfilling"
        else .select fun db₂ =>
          if db₂.requests.rows.any fun r => r.who.org = org && r.status = .fulfilled && r.mt5 = some
            (login, server) then
            refuse 409 "that MT5 login is already given to another request"
          else
            let close : Prog := .exec
              (fun db _ => if db.requestIs id org then ⟨[.close id (.fulfilled login server)], [.request id]⟩
                else ⟨[], []⟩)
              fun db _ => if db.requestIs id org then .commit (.done .ok) else rollback 409
                "decided by someone else"
            match body.accountId with
            | some a => linkAccount r.who a close
            | none => close

/-- `reject_request`. -/
def rejectRequest (c : Caller) (org id : ℕ) (note : String) : Prog :=
  requireOrgRole c org .admin fun _ =>
    attempt (Portal.cleanText note "note" 500 true) fun _ =>
    openRequest org id fun _ =>
      .auto (fun db _ => if db.requestIs id org then ⟨[.close id .rejected], [.request id]⟩ else ⟨[], []⟩)
        fun db _ => if db.requestIs id org then .done .ok else refuse 409 "decided by someone else"

/-! ### Sessions and the feed -/

/-- The next session version; the sockets follow. -/
def endSessions (user : ℕ) : Prog :=
  .auto (fun db _ => if (db.sessionVersion user).isSome then ⟨[.endSessions user], [.user user]⟩ else ⟨[], []⟩)
    fun _ _ => .done (.closeForUser user)

/-- `logout_everywhere`. -/
def logoutEverywhere (c : Caller) : Prog := requireUser c (endSessions c.user)

/-- `change_password`; the gate is the MPIN and the two passwords. -/
def changePassword (c : Caller) (refusal : Option (ℕ × String)) : Prog :=
    requireUser c (gate refusal (endSessions c.user))

/-- `change_mpin`. -/
def changeMpin (c : Caller) (refusal : Option (ℕ × String)) : Prog :=
    requireUser c (gate refusal (endSessions c.user))

/-- `reset_mpin`, which a half session may call. -/
def resetMpin (c : Caller) (refusal : Option (ℕ × String)) : Prog :=
    requireHalfSession c (gate refusal (endSessions c.user))

/-- A WebSocket handshake: whether the origin is allowed, the session cookie and the `org_id` parameter. -/
structure Handshake where
  originAllowed : Bool
  session : Option Caller
  org : Option ℕ

/-- `websocket_endpoint`, up to the registration. -/
def websocketEndpoint (h : Handshake) : Prog :=
  if !h.originAllowed then .done (.closeSocket 4403 "Forbidden origin")
  else match h.session.filter Caller.pin with
  | none => .done (.closeSocket 4401 "Unauthorized")
  | some c =>
    match h.org with
    | none => .done (.closeSocket 4400 "org_id required")
    | some org =>
      .select fun db₁ =>
        if db₁.sessionVersion c.user ≠ some c.version then .done (.closeSocket 4401 "Unauthorized")
        else .select fun db₂ =>
          match db₂.memberships.find ⟨org, c.user⟩ with
          | none => .done (.closeSocket 4404 "Not found")
          | some m =>
            if m.role = .investor then .done (.closeSocket 4403 "Forbidden") else .done (.connect ⟨org, c.user⟩)

/-! ### Requests -/

/-- What a user asks the api for. -/
inductive Request where
  | joinOrg (c : Caller) (tokenHash : String) (now : ℚ)
  | patchMember (c : Caller) (org member : ℕ) (role : Option Role)
  | removeMember (c : Caller) (org member : ℕ)
  | createInvite (c : Caller) (org : ℕ) (role : Option Role) (tokenHash : String) (expiresAt : ℚ)
  | revokeInvite (c : Caller) (org id : ℕ)
  | requestAccount (c : Caller) (org : ℕ) (body : AccountRequestBody)
  | cancelAccountRequest (c : Caller) (org id : ℕ)
  | fulfilRequest (c : Caller) (org id : ℕ) (body : FulfilBody)
  | rejectRequest (c : Caller) (org id : ℕ) (note : String)
  | logoutEverywhere (c : Caller)
  | changePassword (c : Caller) (refusal : Option (ℕ × String))
  | changeMpin (c : Caller) (refusal : Option (ℕ × String))
  | resetMpin (c : Caller) (refusal : Option (ℕ × String))
  | handshake (h : Handshake)
  /-- Any change of the tables that are only read here. -/
  | configure (c : Config)

/-- The program of a request. -/
def route (sealWith : String → String) : Request → Prog
  | .joinOrg c tokenHash now => joinOrg c tokenHash now
  | .patchMember c org member role => patchMember c org member role
  | .removeMember c org member => removeMember c org member
  | .createInvite c org role tokenHash expiresAt => createInvite c org role tokenHash expiresAt
  | .revokeInvite c org id => revokeInvite c org id
  | .requestAccount c org body => requestAccount sealWith c org body
  | .cancelAccountRequest c org id => cancelAccountRequest c org id
  | .fulfilRequest c org id body => fulfilRequest c org id body
  | .rejectRequest c org id note => rejectRequest c org id note
  | .logoutEverywhere c => logoutEverywhere c
  | .changePassword c refusal => changePassword c refusal
  | .changeMpin c refusal => changeMpin c refusal
  | .resetMpin c refusal => resetMpin c refusal
  | .handshake h => websocketEndpoint h
  | .configure c => .auto (fun _ _ => ⟨[.config c], []⟩) fun _ _ => .done .ok

/-- The members' tables, the sessions and their locks. -/
abbrev Sys : Type := ReadCommitted.Sys Db Write Lock Reply Request

end Members
