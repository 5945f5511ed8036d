import CopyTrading.Lib.RelyGuarantee
import CopyTrading.Portal.Common

/-!
# Members — the members of an org, their account requests and their sessions

The rows follow `db/migrations/005`, `010`, `020`, `023` and `024`; what a `CHECK` says of a row is a field of its
type. A row is known to the statements that wait for it by its `tuple`: an `UPDATE` keeps it, a member who leaves
and joins again gets a new one.  Columns that no route below reads back are left out.
-/

namespace Members

/-- `(org_id, user_id)`. -/
structure Who where
  org : ℕ
  user : ℕ
  deriving DecidableEq, Repr

/-- `role` of a membership. -/
inductive Role where
  | investor | viewer | admin
  deriving DecidableEq, Repr

/-- `ROLE_RANK`. -/
def Role.rank : Role → ℤ
  | .investor => -1
  | .viewer => 0
  | .admin => 1

/-- `org_memberships`. -/
structure Membership where
  who : Who
  role : Role
  tuple : ℕ
  deriving DecidableEq

/-- `org_invites`. -/
structure Invite where
  tokenHash : String
  id : ℕ
  org : ℕ
  role : Role
  expiresAt : ℚ
  consumed : Bool
  deriving DecidableEq

/-- `status` of an account request. -/
inductive RequestStatus where
  | requested | fulfilled | rejected | cancelled
  deriving DecidableEq, Repr

def RequestStatus.text : RequestStatus → String
  | .requested => "requested"
  | .fulfilled => "fulfilled"
  | .rejected => "rejected"
  | .cancelled => "cancelled"

/-- `account_requests`; `mt5` is the login and the server. -/
structure AccountRequest where
  id : ℕ
  who : Who
  status : RequestStatus
  mainPasswordEnc : Option String
  investorPasswordEnc : Option String
  mt5 : Option (ℕ × String)
  passwords_only_while_open : status = .requested ∨ (mainPasswordEnc = none ∧ investorPasswordEnc = none)
  fulfilled_has_login : status = .fulfilled → mt5.isSome
  deriving DecidableEq

/-- What ends a request. -/
inductive Ending where
  | fulfilled (login : ℕ) (server : String) | rejected | cancelled
  deriving DecidableEq

/-- The row after its `UPDATE`: the sealed passwords are gone. -/
def AccountRequest.close (e : Ending) (r : AccountRequest) : AccountRequest where
  id := r.id
  who := r.who
  status := match e with | .fulfilled .. => .fulfilled | .rejected => .rejected | .cancelled => .cancelled
  mainPasswordEnc := none
  investorPasswordEnc := none
  mt5 := match e with | .fulfilled login server => some (login, server) | _ => r.mt5
  passwords_only_while_open := .inr ⟨rfl, rfl⟩
  fulfilled_has_login := by cases e <;> simp

/-- `status = 'requested'`. -/
def AccountRequest.isOpen (r : AccountRequest) : Bool := r.status = .requested

@[simp] theorem AccountRequest.isOpen_close (e : Ending) (r : AccountRequest) : (r.close e).isOpen = false := by
  cases e <;> simp [AccountRequest.isOpen, AccountRequest.close]

/-- `account_packages`. -/
structure Package where
  org : ℕ
  enabled : Bool
  leverageOptions : List ℕ

/-- The tables that are only read here. -/
structure Config where
  kycApproved : Who → Bool
  maxLiveAccounts : ℕ → ℕ
  package : ℕ → Option Package

instance : Keyed Membership Who := ⟨Membership.who⟩
instance : Keyed Invite String := ⟨Invite.tokenHash⟩
instance : Keyed AccountRequest ℕ := ⟨AccountRequest.id⟩

@[simp] theorem key_membership (m : Membership) : Keyed.key m = m.who := rfl
@[simp] theorem key_invite (i : Invite) : Keyed.key i = i.tokenHash := rfl
@[simp] theorem key_request (r : AccountRequest) : Keyed.key r = r.id := rfl

/-- The committed rows. -/
structure Db where
  memberships : Table Membership
  invites : Table Invite
  requests : Table AccountRequest
  accounts : Table Portal.Account
  /-- `users.session_version`. -/
  sessionVersion : ℕ → Option ℕ
  config : Config

/-- One row written by a statement. -/
inductive Write where
  | join (m : Membership)
  | role (who : Who) (role : Role)
  | leave (who : Who)
  | invite (i : Invite)
  | consume (tokenHash : String)
  | revoke (tokenHash : String)
  | request (r : AccountRequest)
  | close (id : ℕ) (e : Ending)
  | owner (account : ℕ) (investor : Option ℕ)
  | endSessions (user : ℕ)
  | config (c : Config)

theorem key_owner (u : Option ℕ) (r : Portal.Account) : Keyed.key { r with investor := u } = Keyed.key r := rfl

/-- The effect of a row write. -/
def Db.put (w : Write) (db : Db) : Db :=
  match w with
  | .join m => { db with memberships := db.memberships.insert m }
  | .role who role =>
    { db with memberships := db.memberships.modify who (fun m => { m with role := role }) (fun _ => rfl) }
  | .leave who => { db with memberships := db.memberships.delete [who] }
  | .invite i => { db with invites := db.invites.insert i }
  | .consume t => { db with invites := db.invites.modify t (fun i => { i with consumed := true }) (fun _ => rfl) }
  | .revoke t => { db with invites := db.invites.delete [t] }
  | .request r => { db with requests := db.requests.insert r }
  | .close id e => { db with requests := db.requests.modify id (AccountRequest.close e) (fun _ => rfl) }
  | .owner a u => { db with accounts := db.accounts.modify a (fun r => { r with investor := u }) (key_owner u) }
  | .endSessions u =>
    { db with sessionVersion := Function.update db.sessionVersion u ((db.sessionVersion u).map (· + 1)) }
  | .config c => { db with config := c }

/-- The locks of the statements: rows, and the keys of the unique indexes that are inserted into. -/
inductive Lock where
  | member (who : Who) | invite (tokenHash : String) | request (id : ℕ) | openRequest (who : Who)
  | account (id : ℕ) | user (user : ℕ)
  deriving DecidableEq

/-- What a route answers.  Some answers are acted on after the last statement: the feed's sockets are closed, or a
new one is registered. -/
inductive Reply where
  | ok
  | error (status : ℕ) (detail : String)
  /-- `broadcaster.close_for`. -/
  | closeFor (who : Who)
  /-- `broadcaster.close_for_user`. -/
  | closeForUser (user : ℕ)
  /-- `broadcaster.connect`. -/
  | connect (who : Who)
  | closeSocket (code : ℕ) (reason : String)
  deriving DecidableEq

/-- A request in progress. -/
abbrev Prog : Type := ReadCommitted.Prog Db Write Lock Reply

/-- The state that a session sees with its own writes on top. -/
abbrev view (ws : List Write) (db : Db) : Db := ReadCommitted.view Db.put ws db

@[simp] theorem view_nil (db : Db) : view [] db = db := rfl

@[simp] theorem view_cons (w : Write) (ws : List Write) (db : Db) : view (w :: ws) db = view ws (db.put w) := rfl

theorem view_append (ws vs : List Write) (db : Db) : view (ws ++ vs) db = view vs (view ws db) := by
  simp [view, ReadCommitted.view]

end Members
