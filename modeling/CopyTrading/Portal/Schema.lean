import CopyTrading.Lib.ReadCommitted
import CopyTrading.Portal.Ledger

/-!
# Portal.Schema — the tables of the client portal and their row writes

The rows follow `db/migrations/022_client_wallets.sql`, `024` and `025`: what a `CHECK` constraint
says about one row is a field of the row's type.  Columns that no route below reads back (notes,
timestamps, who decided) are left out.  `portal_settings` and `bonus_rules` have a row per org that
is created with the defaults on first read, so they are functions of the org.

`Write` is one row written by a statement, `Db.put` its effect.  A row that is written is locked,
and so is the key of a unique index that is inserted into.
-/

namespace Portal

/-- `(org_id, user_id)`. -/
structure Investor where
  org : ℕ
  user : ℕ
  deriving DecidableEq, Repr

inductive EntryKind where
  | deposit | withdrawal | transfer | adjustment | bonus | commission | fee
  deriving DecidableEq, Repr

/-- `ref_table`. -/
inductive RefTable where
  | deposits | withdrawals | transfers | bonuses
  deriving DecidableEq, Repr

/-- `wallet_entries`. -/
structure WalletEntry where
  id : ℕ
  who : Investor
  wallet : Wallet
  amount : ℤ
  kind : EntryKind
  ref : Option (RefTable × ℕ)
  amount_ne : amount ≠ 0
  deriving DecidableEq

inductive DepositTarget where
  | wallet | account
  deriving DecidableEq, Repr

inductive MethodKind where
  | crypto | bank
  deriving DecidableEq, Repr

/-- `deposits`. -/
structure Deposit where
  id : ℕ
  who : Investor
  amount : Amount
  fee : ℤ
  credited : Option ℤ
  reference : String
  receiptFile : Option ℕ
  target : DepositTarget
  targetAccount : Option ℕ
  status : DepositStatus
  deriving DecidableEq

/-- `withdrawals`: always from the main wallet. -/
structure Withdrawal where
  id : ℕ
  who : Investor
  destination : ℕ
  amount : Amount
  fee : ℤ
  net : ℤ
  status : WithdrawalStatus
  deriving DecidableEq

/-- The two ends of a transfer.  The `CHECK`s leave three shapes: never account to account, never a
wallet to itself.  An account end's id is `NULL` once the account was removed. -/
inductive Ends where
  | walletToWallet (source target : Wallet) (ne : source ≠ target)
  | walletToAccount (source : Wallet) (target : Option ℕ)
  | accountToWallet (source : Option ℕ) (target : Wallet)
  deriving DecidableEq

/-- `source_wallet`. -/
def Ends.sourceWallet : Ends → Option Wallet
  | .walletToWallet s _ _ => some s
  | .walletToAccount s _ => some s
  | .accountToWallet _ _ => none

/-- `target_wallet`. -/
def Ends.targetWallet : Ends → Option Wallet
  | .walletToWallet _ t _ => some t
  | .walletToAccount _ _ => none
  | .accountToWallet _ t => some t

/-- `source_account_id`. -/
def Ends.sourceAccount : Ends → Option ℕ
  | .accountToWallet s _ => s
  | _ => none

/-- `target_account_id`. -/
def Ends.targetAccount : Ends → Option ℕ
  | .walletToAccount _ t => t
  | _ => none

/-- An account end whose account was removed. -/
def Ends.removed : Ends → Bool
  | .walletToWallet _ _ _ => false
  | .walletToAccount _ t => t.isNone
  | .accountToWallet s _ => s.isNone

/-- `transfers`. -/
structure Transfer where
  id : ℕ
  who : Investor
  ends : Ends
  amount : Amount
  status : TransferStatus
  equityAtRequest : Option ℤ
  equityVerified : Bool
  deriving DecidableEq

inductive BonusSource where
  | signup | kyc | deposit | manual
  deriving DecidableEq, Repr

/-- `bonuses`.  Only a hand-posted claw-back is negative; only a deposit bonus names a row. -/
structure Bonus where
  id : ℕ
  who : Investor
  source : BonusSource
  sourceId : Option ℕ
  amount : ℤ
  amount_ne : amount ≠ 0
  amount_pos : 0 < amount ∨ source = .manual
  sourceId_iff : source = .deposit ↔ sourceId.isSome
  deriving DecidableEq

inductive AccountRole where
  | master | slave | ignored
  deriving DecidableEq, Repr

/-- `accounts`, keyed by `ctid_trader_account_id`. -/
structure Account where
  id : ℕ
  org : ℕ
  role : AccountRole
  mt5 : Bool
  investor : Option ℕ
  deriving DecidableEq

/-- `payment_methods`. -/
structure PaymentMethod where
  org : ℕ
  kind : MethodKind
  enabled : Bool
  minAmount : ℤ
  feePct : ℚ

inductive DestinationStatus where
  | pending | approved | rejected | removed
  deriving DecidableEq, Repr

/-- `payout_destinations`. -/
structure PayoutDestination where
  who : Investor
  status : DestinationStatus

/-- `portal_settings`. -/
structure PortalSettings where
  withdrawalMin : ℤ
  withdrawalFeePct : ℚ
  maxLiveAccounts : ℕ

/-- `bonus_rules`, with its `CHECK`s. -/
structure BonusRules where
  signupEnabled : Bool
  signupAmount : ℤ
  kycEnabled : Bool
  kycAmount : ℤ
  depositEnabled : Bool
  depositPct : ℚ
  depositCap : Option ℤ
  signup_nonneg : 0 ≤ signupAmount
  kyc_nonneg : 0 ≤ kycAmount
  pct_nonneg : 0 ≤ depositPct
  cap_pos : ∀ c ∈ depositCap, 0 < c

def BonusRules.off : BonusRules := ⟨false, 0, false, 0, false, 0, none, le_rfl, le_rfl, le_rfl, by simp⟩

instance : Keyed WalletEntry ℕ := ⟨WalletEntry.id⟩
instance : Keyed Deposit ℕ := ⟨Deposit.id⟩
instance : Keyed Withdrawal ℕ := ⟨Withdrawal.id⟩
instance : Keyed Transfer ℕ := ⟨Transfer.id⟩
instance : Keyed Bonus ℕ := ⟨Bonus.id⟩
instance : Keyed Account ℕ := ⟨Account.id⟩

@[simp] theorem key_entry (r : WalletEntry) : Keyed.key r = r.id := rfl
@[simp] theorem key_deposit (r : Deposit) : Keyed.key r = r.id := rfl
@[simp] theorem key_withdrawal (r : Withdrawal) : Keyed.key r = r.id := rfl
@[simp] theorem key_transfer (r : Transfer) : Keyed.key r = r.id := rfl
@[simp] theorem key_bonus (r : Bonus) : Keyed.key r = r.id := rfl
@[simp] theorem key_account (r : Account) : Keyed.key r = r.id := rfl

/-- The tables the money routes only read.  `investor o u`: user `u` is an investor member of org
`o`; `file who id`: the deposit receipt `id` was uploaded by that investor; `attached id`: the file
hangs on a payout destination, a KYC profile or a ticket. -/
structure Config where
  method : ℕ → Option PaymentMethod
  destination : ℕ → Option PayoutDestination
  settings : ℕ → PortalSettings
  rules : ℕ → BonusRules
  investor : ℕ → ℕ → Bool
  file : Investor → ℕ → Bool
  attached : ℕ → Bool

/-- The committed rows the portal's money routes read and write. -/
structure Db where
  entries : Table WalletEntry
  deposits : Table Deposit
  withdrawals : Table Withdrawal
  transfers : Table Transfer
  bonuses : Table Bonus
  accounts : Table Account
  config : Config

/-- One row written by a statement. -/
inductive Write where
  | entry (e : WalletEntry)
  | deposit (d : Deposit)
  | depositStatus (id : ℕ) (status : DepositStatus) (credited : Option ℤ)
  | withdrawal (w : Withdrawal)
  | withdrawalStatus (id : ℕ) (status : WithdrawalStatus)
  | transfer (t : Transfer)
  | transferStatus (id : ℕ) (status : TransferStatus)
  | bonus (b : Bonus)
  | owner (account : ℕ) (investor : Option ℕ)
  | config (c : Config)

/-- The effect of a row write. -/
@[simp] def Db.put (w : Write) (db : Db) : Db :=
  match w with
  | .entry e => { db with entries := db.entries.insert e }
  | .deposit d => { db with deposits := db.deposits.insert d }
  | .depositStatus id st cr =>
    { db with deposits :=
        db.deposits.modify id (fun d => { d with status := st, credited := cr }) (fun _ => rfl) }
  | .withdrawal w => { db with withdrawals := db.withdrawals.insert w }
  | .withdrawalStatus id st =>
    { db with withdrawals :=
        db.withdrawals.modify id (fun w => { w with status := st }) (fun _ => rfl) }
  | .transfer t => { db with transfers := db.transfers.insert t }
  | .transferStatus id st =>
    { db with transfers :=
        db.transfers.modify id (fun t => { t with status := st }) (fun _ => rfl) }
  | .bonus b => { db with bonuses := db.bonuses.insert b }
  | .owner a u =>
    { db with accounts :=
        db.accounts.modify a (fun r => { r with investor := u }) (fun _ => rfl) }
  | .config c => { db with config := c }

/-- The locks of the portal's statements: the per-investor advisory lock under its hashed key, the
rows of the tables, and the keys of the unique indexes `wallet_entries_one_per_ref`,
`bonuses_once_per_user`, `bonuses_once_per_deposit`, `deposits_one_live_reference` and
`deposits_one_receipt`. -/
inductive Lock where
  | ledger (key : ℤ)
  | entryRow (id : ℕ) | depositRow (id : ℕ) | withdrawalRow (id : ℕ) | transferRow (id : ℕ)
  | bonusRow (id : ℕ) | accountRow (id : ℕ)
  | entryRef (t : RefTable) (id : ℕ) (w : Wallet)
  | bonusOnce (who : Investor) (s : BonusSource) | bonusDeposit (org id : ℕ)
  | reference (org : ℕ) (key : String) | receipt (file : ℕ)
  deriving DecidableEq

/-- An answer of a route: `200`/`201` or an `HTTPException`. -/
inductive Answer where
  | ok
  | error (status : ℕ) (detail : String)
  deriving DecidableEq, Repr

/-- A portal request in progress. -/
abbrev Prog : Type := ReadCommitted.Prog Db Write Lock Answer

/-- The state a session sees with its own writes on top. -/
abbrev view (ws : List Write) (db : Db) : Db := ReadCommitted.view Db.put ws db

@[simp] theorem view_nil (db : Db) : view [] db = db := rfl

@[simp] theorem view_cons (w : Write) (ws : List Write) (db : Db) :
    view (w :: ws) db = view ws (Db.put w db) := rfl

theorem view_append (ws vs : List Write) (db : Db) : view (ws ++ vs) db = view vs (view ws db) := by
  simp [view, ReadCommitted.view]

end Portal
