import CopyTrading.Portal.Common

/-!
# Portal.Routes — the money routes as programs of SQL statements

`portal_investor.py`, `portal_admin.py` and `portal_bonus.py`, statement by statement.  Connections
are in autocommit: a statement before `with conn.transaction()` is a transaction of its own.  What a
request learns outside the database is part of the request: the answer of the MPIN gate (`mpin`,
`none` when it passes), of the hourly rate limiter (`limited`) and of the copier's equity read.
Audit, notification and the JSON of the answer come after the commit and are left out.
-/

namespace Portal

/-- `try: … except LedgerError: raise HTTPException(400)`. -/
def attempt {α : Type} (x : Except String α) (k : α → Prog) : Prog :=
  match x with
  | .error e => refuse 400 e
  | .ok a => k a

/-- `require_mpin`: a failure is the answer. -/
def requireMpin (mpin : Option Answer) (p : Prog) : Prog :=
  match mpin with
  | some failure => .done failure
  | none => p

/-- An `UPDATE … RETURNING` of one row inside a transaction. -/
def updateRow (hit : Db → Bool) (w : Write) (l : Lock) (p : Prog) (none : Prog) : Prog :=
  .exec (fun db _ => if hit db then ⟨[w], [l]⟩ else ⟨[], []⟩)
    (fun db _ => if hit db then p else none)

/-- The same outside a transaction: it commits with its own end. -/
def updateRowAuto (hit : Db → Bool) (w : Db → Write) (l : Lock) (p : Prog) (none : Prog) : Prog :=
  .auto (fun db _ => if hit db then ⟨[w db], [l]⟩ else ⟨[], []⟩)
    (fun db _ => if hit db then p else none)

namespace Db

variable (db : Db)

/-- `WHERE id = … AND org_id = … AND status = …` on `deposits`. -/
def depositIs (id org : ℕ) (st : DepositStatus) : Bool :=
  match db.deposits.find id with
  | some d => d.who.org = org && d.status = st
  | none => false

def withdrawalIs (id org : ℕ) (st : WithdrawalStatus) : Bool :=
  match db.withdrawals.find id with
  | some w => w.who.org = org && w.status = st
  | none => false

def transferIs (id org : ℕ) (st : TransferStatus) : Bool :=
  match db.transfers.find id with
  | some t => t.who.org = org && t.status = st
  | none => false

/-- The row is there and its account end was removed. -/
def transferRemoved (id : ℕ) : Bool :=
  match db.transfers.find id with
  | some t => t.ends.removed
  | none => false

/-- The unique index that refuses a new notice, as the route reports it. -/
def depositConflict (org : ℕ) (reference : String) (receipt : Option ℕ) : Option Answer :=
  if db.deposits.rows.any fun d => d.who.org = org &&
      d.reference.toLower = reference.toLower && (d.status = .pending || d.status = .confirmed) then
    some (.error 409 "A notice with this reference already exists")
  else if receipt.isSome && db.deposits.rows.any fun d => d.receiptFile = receipt then
    some (.error 400 "receipt file is already attached to another notice")
  else none

end Db

/-- `RATE_LIMITED`. -/
def rateLimited : String := "too many requests; try again later"

def decidedByOther : String := "decided by someone else"

/-! ### Deposits -/

/-- The `target` text of a notice. -/
inductive TargetText where
  | absent | wallet | account | other
  deriving DecidableEq

structure DepositNotice where
  amount : Raw
  reference : String
  note : String
  target : TargetText
  methodId : ℕ
  receiptFile : Option ℕ
  targetAccount : Option ℕ
  limited : Bool

/-- The receipt checks of `file_deposit`. -/
def receiptGate (ctx : Investor) (receipt : Option ℕ) (p : Prog) : Prog :=
  match receipt with
  | none => p
  | some f => .select fun db₁ =>
    if db₁.config.file ctx f && db₁.deposits.rows.any (fun d => d.receiptFile = some f) then
      refuse 400 "receipt file is already attached to another notice"
    else .select fun db₂ =>
      if db₂.config.file ctx f && !db₂.deposits.rows.any (fun d => d.receiptFile = some f) &&
          !db₂.config.attached f then p
      else refuse 400 "receipt file not found"

/-- The target checks of `file_deposit`. -/
def targetGate (ctx : Investor) (target : DepositTarget) (account : Option ℕ)
    (k : Option ℕ → Prog) : Prog :=
  match target with
  | .wallet => k none
  | .account => .select fun db =>
    if db.linkedAccounts ctx = [] then refuse 409 "no account linked yet"
    else pickAccount ctx account "target_account_id" fun a => k (some a)

/-- The `INSERT` of `file_deposit`, autocommitted. -/
def insertDeposit (ctx : Investor) (amount : Amount) (fee : ℤ) (reference : String)
    (receipt : Option ℕ) (target : DepositTarget) (account : Option ℕ) : Prog :=
  .auto
    (fun db id => match db.depositConflict ctx.org reference receipt with
      | some _ => ⟨[], []⟩
      | none => ⟨[.deposit ⟨id, ctx, amount, fee, none, reference, receipt, target, account, .pending⟩],
          .depositRow id :: .reference ctx.org reference.toLower :: (receipt.map Lock.receipt).toList⟩)
    (fun db _ => match db.depositConflict ctx.org reference receipt with
      | some a => .done a
      | none => .done .ok)

/-- `file_deposit` after its texts are parsed. -/
def fileNotice (ctx : Investor) (body : DepositNotice) (amount : Amount) (reference : String)
    (target : DepositTarget) : Prog :=
  .select fun db =>
    match db.config.method body.methodId with
    | none => refuse 404 "Payment method not found"
    | some m =>
      if m.org ≠ ctx.org ∨ ¬ m.enabled then refuse 404 "Payment method not found"
      else if amount.1 < m.minAmount then
        refuse 400 ("minimum deposit for this method is " ++ fmt m.minAmount)
      else if m.kind = .bank ∧ body.receiptFile = none then
        refuse 400 "receipt is required for bank deposits"
      else receiptGate ctx body.receiptFile <|
        targetGate ctx target body.targetAccount fun account =>
          if body.limited then refuse 429 rateLimited
          else insertDeposit ctx amount (feeFor amount.1 m.feePct) reference body.receiptFile target
            account

/-- `file_deposit`. -/
def fileDeposit (ctx : Investor) (body : DepositNotice) : Prog :=
  attempt (parseAmount body.amount "amount") fun amount =>
  attempt (cleanText body.reference "reference" maxText true) fun reference =>
  attempt (cleanText body.note "note" 500 false) fun _ =>
  match body.target with
  | .absent | .wallet => fileNotice ctx body amount (reference.getD "") .wallet
  | .account => fileNotice ctx body amount (reference.getD "") .account
  | .other => refuse 400 "target must be wallet or account"

/-- `cancel_deposit`. -/
def cancelDeposit (ctx : Investor) (id : ℕ) : Prog :=
  .select fun db =>
    match db.deposits.find id with
    | none => refuse 404 "Deposit not found"
    | some d =>
      if d.who ≠ ctx then refuse 404 "Deposit not found"
      else if ¬ d.status.canTransition .cancelled then
        refuse 409 ("deposit is already " ++ d.status.text)
      else updateRowAuto (fun db => db.depositIs id ctx.org .pending)
        (fun db => .depositStatus id .cancelled ((db.deposits.find id).bind Deposit.credited))
        (.depositRow id) (.done .ok) (refuse 409 decidedByOther)

/-- The `status` text of a decision. -/
inductive DecisionStatus where
  | confirmed | approved | done | rejected | other
  deriving DecidableEq

structure DepositDecision where
  status : DecisionStatus
  note : String
  creditedAmount : Option Raw

variable (hashtext : String → ℤ)

/-- The deposit rule's bonus and the end of the transaction. -/
def depositBonusCommit (org id : ℕ) (who : Investor) (credited : Amount) : Prog :=
  ruleBonus org (.deposit credited.1) fun amount =>
    payBonus who .deposit amount (some id) fun _ => .commit (.done .ok)

/-- The writes of a confirmation; `linked` is the account the notice named, if the investor still
owns it. -/
def confirmWrites (org id : ℕ) (who : Investor) (credited : Amount) (linked : Option ℕ) : Prog :=
  updateRow (fun db => db.depositIs id org .pending)
    (.depositStatus id .confirmed (some credited.1)) (.depositRow id)
    (settle who .main credited.1 (ne_of_gt credited.2) .deposit (.deposits, id) fun _ =>
      match linked with
      | none => depositBonusCommit org id who credited
      | some a => .exec
        (fun _ tid => ⟨[.transfer ⟨tid, who, .walletToAccount .main (some a), credited, .approved,
          none, false⟩], [.transferRow tid]⟩)
        (fun _ _ => depositBonusCommit org id who credited))
    (rollback 409 decidedByOther)

/-- The transaction of `decide_deposit` that confirms. -/
def confirmDeposit (org id : ℕ) (d : Deposit) (credited : Amount) : Prog :=
  lockInvestorLedger hashtext d.who <|
    match d.target, d.targetAccount with
    | .account, some a => .select fun db =>
      if db.ownsAccount d.who a then confirmWrites org id d.who credited (some a)
      else confirmWrites org id d.who credited none
    | _, _ => confirmWrites org id d.who credited none

/-- What `decide_deposit` credits. -/
def creditedAmount (d : Deposit) (raw : Option Raw) : Except String Amount :=
  let credited : Except String ℤ := match raw with
    | none => .ok (d.amount.1 - d.fee)
    | some r => (parseAmount r "credited_amount").map Subtype.val
  match credited with
  | .error e => .error e
  | .ok c =>
    if h : 0 < c then
      if d.amount.1 < c then
        .error ("credited amount cannot exceed the notice amount (" ++ fmt d.amount.1 ++ ")")
      else .ok ⟨c, h⟩
    else .error "credited_amount must be greater than 0"

/-- `decide_deposit` up to its transaction. -/
def depositNow (org id : ℕ) (new : DepositStatus) (note : String) (k : Deposit → Prog) : Prog :=
  attempt (requireNoteOnReject (new = .rejected) note) fun _ =>
  .select fun db =>
    match db.deposits.find id with
    | none => refuse 404 "Deposit not found"
    | some d =>
      if d.who.org ≠ org then refuse 404 "Deposit not found"
      else if ¬ d.status.canTransition new then
        refuse 409 ("deposit is already " ++ d.status.text)
      else k d

/-- `decide_deposit`. -/
def decideDeposit (org id : ℕ) (body : DepositDecision) : Prog :=
  match body.status with
  | .confirmed => depositNow org id .confirmed body.note fun d =>
    attempt (creditedAmount d body.creditedAmount) fun credited =>
      confirmDeposit hashtext org id d credited
  | .rejected => depositNow org id .rejected body.note fun d =>
    lockInvestorLedger hashtext d.who <|
      updateRow (fun db => db.depositIs id org .pending) (.depositStatus id .rejected none)
        (.depositRow id) (.commit (.done .ok)) (rollback 409 decidedByOther)
  | _ => refuse 400 "status must be confirmed or rejected"

/-! ### Withdrawals -/

structure WithdrawalRequest where
  mpin : Option Answer
  amount : Raw
  destinationId : ℕ
  limited : Bool

/-- `request_withdrawal`. -/
def requestWithdrawal (ctx : Investor) (body : WithdrawalRequest) : Prog :=
  requireMpin body.mpin <|
  attempt (parseAmount body.amount "amount") fun amount =>
  .select fun db₁ =>
    match db₁.config.destination body.destinationId with
    | none => refuse 404 "Payout account not found"
    | some dest =>
      if dest.who ≠ ctx ∨ dest.status ≠ .approved then refuse 404 "Payout account not found"
      else .select fun db₂ =>
        let settings := db₂.config.settings ctx.org
        if amount.1 < settings.withdrawalMin then
          refuse 400 ("minimum withdrawal is " ++ fmt settings.withdrawalMin)
        else lockInvestorLedger hashtext ctx <|
          walletAvailable ctx .main fun avail =>
            let fee := feeFor amount.1 settings.withdrawalFeePct
            if avail < amount.1 then
              rollback 400 ("amount exceeds what is available (" ++ fmt avail ++ ")")
            else if amount.1 - fee ≤ 0 then rollback 400 "amount is too small to cover the fee"
            else if body.limited then rollback 429 rateLimited
            else .exec
              (fun _ id => ⟨[.withdrawal ⟨id, ctx, body.destinationId, amount, fee, amount.1 - fee,
                .requested⟩], [.withdrawalRow id]⟩)
              (fun _ _ => .commit (.done .ok))

/-- `cancel_withdrawal`. -/
def cancelWithdrawal (ctx : Investor) (id : ℕ) : Prog :=
  .select fun db =>
    match db.withdrawals.find id with
    | none => refuse 404 "Withdrawal not found"
    | some w =>
      if w.who ≠ ctx then refuse 404 "Withdrawal not found"
      else if ¬ w.status.canTransition .cancelled then
        refuse 409 ("withdrawal is already " ++ w.status.text)
      else updateRowAuto (fun db => db.withdrawalIs id ctx.org w.status)
        (fun _ => .withdrawalStatus id .cancelled) (.withdrawalRow id) (.done .ok)
        (refuse 409 decidedByOther)

structure Decision where
  status : DecisionStatus
  note : String

/-- `decide_withdrawal` after the status text is read. -/
def withdrawalDecision (org id : ℕ) (new : WithdrawalStatus) (note : String) : Prog :=
  attempt (requireNoteOnReject (new = .rejected) note) fun _ =>
  .select fun db =>
    match db.withdrawals.find id with
    | none => refuse 404 "Withdrawal not found"
    | some w =>
      if w.who.org ≠ org then refuse 404 "Withdrawal not found"
      else if ¬ w.status.canTransition new then
        refuse 409 ("withdrawal is already " ++ w.status.text)
      else updateRowAuto (fun db => db.withdrawalIs id org w.status)
        (fun _ => .withdrawalStatus id new) (.withdrawalRow id) (.done .ok)
        (refuse 409 decidedByOther)

/-- `decide_withdrawal`. -/
def decideWithdrawal (org id : ℕ) (body : Decision) : Prog :=
  match body.status with
  | .approved => withdrawalDecision org id .approved body.note
  | .rejected => withdrawalDecision org id .rejected body.note
  | _ => refuse 400 "status must be approved or rejected"

/-- `mark_withdrawal_paid`. -/
def markWithdrawalPaid (org id : ℕ) (txid : String) : Prog :=
  attempt (cleanText txid "txid" maxText true) fun _ =>
  .select fun db =>
    match db.withdrawals.find id with
    | none => refuse 404 "Withdrawal not found"
    | some w =>
      if w.who.org ≠ org then refuse 404 "Withdrawal not found"
      else if ¬ w.status.canTransition .paid then
        refuse 409 ("withdrawal is " ++ w.status.text ++ ", not approved")
      else lockInvestorLedger hashtext w.who <|
        updateRow (fun db => db.withdrawalIs id org .approved) (.withdrawalStatus id .paid)
          (.withdrawalRow id)
          (settle w.who .main (-w.amount.1) (neg_ne_zero.mpr (ne_of_gt w.amount.2)) .withdrawal
            (.withdrawals, id) fun _ => .commit (.done .ok))
          (rollback 409 decidedByOther)

/-! ### Transfers -/

/-- `equity` and `equityLive` are what `equity_for` answers for the account. -/
structure TransferRequest where
  mpin : Option Answer
  amount : Raw
  source : MoneyRef
  target : MoneyRef
  equity : Option ℚ
  equityLive : Bool
  limited : Bool

/-- The wallet rows of a done transfer: the source wallet, then the target wallet. -/
def settleEnds (who : Investor) (ends : Ends) (amount : Amount) (id : ℕ) (p : Prog) : Prog :=
  let target : Prog := match ends.targetWallet with
    | none => p
    | some w => settle who w amount.1 (ne_of_gt amount.2) .transfer (.transfers, id) fun _ => p
  match ends.sourceWallet with
  | none => target
  | some w => settle who w (-amount.1) (neg_ne_zero.mpr (ne_of_gt amount.2)) .transfer
      (.transfers, id) fun _ => target

/-- The rate limit and the `INSERT` of `request_transfer`; `equity` goes into a `NUMERIC(18,2)`
column. -/
def insertTransfer (ctx : Investor) (body : TransferRequest) (ends : Ends) (amount : Amount)
    (status : TransferStatus) (equity : Option ℚ) (live : Bool) (k : ℕ → Prog) : Prog :=
  if body.limited then rollback 429 rateLimited
  else .exec
    (fun _ id => ⟨[.transfer ⟨id, ctx, ends, amount, status, equity.map roundCents, live⟩],
      [.transferRow id]⟩)
    (fun _ id => k id)

/-- The ownership check of `request_transfer`, before its transaction. -/
def ownedGate (ctx : Investor) (named : ℕ) (p : Prog) : Prog :=
  .select fun db₁ =>
    if db₁.ownsAccount ctx named then p
    else .select fun db₂ =>
      if db₂.linkedAccounts ctx = [] then refuse 409 "no account linked yet"
      else refuse 404 "Account not found"

/-- The wallet cap of `request_transfer`. -/
def walletCap (ctx : Investor) (w : Wallet) (amount : Amount) (p : Prog) : Prog :=
  walletAvailable ctx w fun avail =>
    if avail < amount.1 then
      rollback 400 ("amount exceeds what is available (" ++ fmt avail ++ ")")
    else p

/-- The account cap of `request_transfer`. -/
def accountCap (ctx : Investor) (a : ℕ) (amount : Amount) (equity : Option ℚ) (p : Prog) : Prog :=
  match equity with
  | some e => accountMovable ctx a e fun movable =>
    if movable < amount.1 then
      rollback 400 ("amount exceeds the account's available equity (" ++ fmt movable ++ ")")
    else p
  | none => .select fun db =>
    if 0 < db.creditFunded ctx a then
      rollback 409 "this account holds bonus credit; try again when its balance is live"
    else p

/-- The transaction of `request_transfer` for a wallet-to-wallet move: done and settled at once. -/
def moveInstant (ctx : Investor) (body : TransferRequest) (amount : Amount) (s t : Wallet)
    (ne : s ≠ t) : Prog :=
  lockInvestorLedger hashtext ctx <| walletCap ctx s amount <|
    insertTransfer ctx body (.walletToWallet s t ne) amount .done none false fun id =>
      settleEnds ctx (.walletToWallet s t ne) amount id (.commit (.done .ok))

/-- The cap and the insert of a wallet-to-account move. -/
def insertIn (ctx : Investor) (body : TransferRequest) (amount : Amount) (w : Wallet) (a : ℕ) : Prog :=
  walletCap ctx w amount <|
    insertTransfer ctx body (.walletToAccount w (some a)) amount .requested none false fun _ =>
      .commit (.done .ok)

/-- The transaction for a wallet-to-account move, with its half of the mutual exclusion. -/
def moveIn (ctx : Investor) (body : TransferRequest) (amount : Amount) (w : Wallet) (a : ℕ) : Prog :=
  lockInvestorLedger hashtext ctx <|
    if w = .credit then .select fun db =>
      if 0 < db.openAccountTransfersOut ctx a then
        rollback 409 "this account has a transfer out still open; wait for it to finish"
      else insertIn ctx body amount w a
    else insertIn ctx body amount w a

/-- The same for an account-to-wallet move, with the other half. -/
def moveOut (ctx : Investor) (body : TransferRequest) (amount : Amount) (a : ℕ) (w : Wallet) : Prog :=
  lockInvestorLedger hashtext ctx <|
    .select fun db =>
      if db.creditTransferOpen ctx a then
        rollback 409
          "a bonus credit transfer into this account is still open; wait for it to finish"
      else accountCap ctx a amount body.equity <|
        insertTransfer ctx body (.accountToWallet (some a) w) amount .requested body.equity
          body.equityLive fun _ => .commit (.done .ok)

/-- `request_transfer`. -/
def requestTransfer (ctx : Investor) (body : TransferRequest) : Prog :=
  requireMpin body.mpin <|
  attempt (parseAmount body.amount "amount") fun amount =>
  attempt (transferPair body.source body.target) fun _ =>
    match body.source, body.target with
    | .wallet s, .wallet t =>
      if h : s = t then refuse 400 notAllowed else moveInstant hashtext ctx body amount s t h
    | .wallet w, .account a => ownedGate ctx a (moveIn hashtext ctx body amount w a)
    | .account a, .wallet w => ownedGate ctx a (moveOut hashtext ctx body amount a w)
    | _, _ => refuse 400 notAllowed

/-- `cancel_transfer`. -/
def cancelTransfer (ctx : Investor) (id : ℕ) : Prog :=
  .select fun db =>
    match db.transfers.find id with
    | none => refuse 404 "Transfer not found"
    | some t =>
      if t.who ≠ ctx then refuse 404 "Transfer not found"
      else if ¬ t.status.canTransition .cancelled then
        refuse 409 ("transfer is already " ++ t.status.text)
      else updateRowAuto (fun db => db.transferIs id ctx.org t.status)
        (fun _ => .transferStatus id .cancelled) (.transferRow id) (.done .ok)
        (refuse 409 decidedByOther)

/-- The cap of `decide_transfer`: the equity seen at request time less the funded credit. -/
def recheckCap (db : Db) (who : Investor) (a : ℕ) (equityAtRequest : ℤ) : ℤ :=
  max (floorCents (toDecimal equityAtRequest - toDecimal (db.creditFunded who a))) 0

/-- The re-check of `decide_transfer`. -/
def creditRecheck (t : Transfer) (p : Prog) : Prog :=
  match t.ends.sourceAccount, t.equityAtRequest with
  | some a, some e => .select fun db =>
    if recheckCap db t.who a e < t.amount.1 then
      rollback 409 ("bonus credit cannot leave the account (at most " ++
        fmt (recheckCap db t.who a e) ++ " may move out); reject this transfer instead")
    else p
  | _, _ => p

/-- `decide_transfer` up to its ledger lock. -/
def transferNow (org id : ℕ) (new : TransferStatus) (note : String) (k : Transfer → Prog) : Prog :=
  attempt (requireNoteOnReject (new = .rejected) note) fun _ =>
  .select fun db =>
    match db.transfers.find id with
    | none => refuse 404 "Transfer not found"
    | some t =>
      if t.who.org ≠ org then refuse 404 "Transfer not found"
      else if ¬ t.status.canTransition new then
        refuse 409 ("transfer is already " ++ t.status.text)
      else lockInvestorLedger hashtext t.who (k t)

/-- `decide_transfer`. -/
def decideTransfer (org id : ℕ) (body : Decision) : Prog :=
  match body.status with
  | .approved => transferNow hashtext org id .approved body.note fun t => creditRecheck t <|
    updateRow (fun db => db.transferIs id org t.status) (.transferStatus id .approved)
      (.transferRow id) (.commit (.done .ok)) (rollback 409 decidedByOther)
  | .rejected => transferNow hashtext org id .rejected body.note fun t =>
    updateRow (fun db => db.transferIs id org t.status) (.transferStatus id .rejected)
      (.transferRow id) (.commit (.done .ok)) (rollback 409 decidedByOther)
  | .done => transferNow hashtext org id .done body.note fun t => creditRecheck t <|
    updateRow (fun db => db.transferIs id org t.status && !db.transferRemoved id)
      (.transferStatus id .done) (.transferRow id)
      (settleEnds t.who t.ends t.amount id (.commit (.done .ok)))
      (.select fun db => if db.transferIs id org t.status && db.transferRemoved id then
          rollback 409 "the trading account was removed; reject this transfer instead"
        else rollback 409 decidedByOther)
  | _ => refuse 400 "status must be approved, done or rejected"

/-! ### Accounts, bonuses, adjustments -/

/-- `_require_investor`. -/
def requireInvestor (who : Investor) (p : Prog) : Prog :=
  .select fun db => if db.config.investor who.org who.user then p else refuse 404 "Investor not found"

def linkInvestorAccount (who : Investor) (a : ℕ) : Prog :=
  requireInvestor who <| linkAccount who a false (.commit (.done .ok))

def unlinkInvestorAccount (who : Investor) (a : ℕ) : Prog :=
  requireInvestor who <| lockInvestorLedger hashtext who <|
    .select fun db₁ =>
      if ¬ db₁.ownsAccount who a then rollback 404 "Account not found"
      else .select fun db₂ =>
        if db₂.openTransferNames who a then
          rollback 409 "this account has open transfers; finish or reject them first"
        else updateRow (fun db => db.ownsAccount who a) (.owner a none) (.accountRow a)
          (.commit (.done .ok)) (rollback 404 "Account not found")

structure GrantBody where
  mpin : Option Answer
  amount : SignedRaw
  note : String

/-- A claw-back may not take the Credit wallet's available figure below zero. -/
def clawBackCap (who : Investor) (amount : ℤ) (p : Prog) : Prog :=
  if amount < 0 then walletAvailable who .credit fun avail =>
    if avail + amount < 0 then
      rollback 400 ("a claw-back cannot take the Credit wallet below zero (available " ++
        fmt avail ++ ")")
    else p
  else p

/-- `grant_bonus`. -/
def grantBonus (who : Investor) (body : GrantBody) : Prog :=
  requireMpin body.mpin <| requireInvestor who <|
  attempt (parseSignedAmount body.amount) fun amount =>
  attempt (cleanText body.note "note" 500 true) fun _ =>
  lockInvestorLedger hashtext who <| clawBackCap who amount.1 <|
    payBonus who .manual amount.1 none fun _ => .commit (.done .ok)

/-- `award_rule_bonus` for the signup and the KYC rule. -/
def awardRuleBonus (who : Investor) (kyc : Bool) : Prog :=
  let rule : Rule := if kyc then .kyc else .signup
  lockInvestorLedger hashtext who <|
    ruleBonus who.org rule fun amount =>
      payBonus who rule.source amount none fun _ => .commit (.done .ok)

structure AdjustmentBody where
  mpin : Option Answer
  wallet : Option Wallet
  amount : SignedRaw
  note : String

/-- `post_adjustment`. -/
def postAdjustment (who : Investor) (body : AdjustmentBody) : Prog :=
  requireMpin body.mpin <| requireInvestor who <|
  match body.wallet with
  | none => refuse 400 "wallet must be one of main, credit, pamm, social"
  | some w =>
    attempt (parseSignedAmount body.amount) fun amount =>
    attempt (cleanText body.note "note" 500 true) fun _ =>
    lockInvestorLedger hashtext who <|
      .exec (fun _ id => ⟨[.entry ⟨id, who, w, amount.1, .adjustment, none, amount.2⟩],
        [.entryRow id]⟩)
        (fun _ _ => .commit (.done .ok))

/-! ### Requests -/

/-- A portal request.  `configure` stands for every edit of the tables the money routes only read:
methods, destinations, settings, rules, memberships, files. -/
inductive Request where
  | fileDeposit (ctx : Investor) (body : DepositNotice)
  | cancelDeposit (ctx : Investor) (id : ℕ)
  | decideDeposit (org id : ℕ) (body : DepositDecision)
  | requestWithdrawal (ctx : Investor) (body : WithdrawalRequest)
  | cancelWithdrawal (ctx : Investor) (id : ℕ)
  | decideWithdrawal (org id : ℕ) (body : Decision)
  | markWithdrawalPaid (org id : ℕ) (txid : String)
  | requestTransfer (ctx : Investor) (body : TransferRequest)
  | cancelTransfer (ctx : Investor) (id : ℕ)
  | decideTransfer (org id : ℕ) (body : Decision)
  | linkInvestorAccount (who : Investor) (account : ℕ)
  | unlinkInvestorAccount (who : Investor) (account : ℕ)
  | grantBonus (who : Investor) (body : GrantBody)
  | awardRuleBonus (who : Investor) (kyc : Bool)
  | postAdjustment (who : Investor) (body : AdjustmentBody)
  | configure (c : Config)

/-- The program of a request. -/
def route : Request → Prog
  | .fileDeposit ctx body => fileDeposit ctx body
  | .cancelDeposit ctx id => cancelDeposit ctx id
  | .decideDeposit org id body => decideDeposit hashtext org id body
  | .requestWithdrawal ctx body => requestWithdrawal hashtext ctx body
  | .cancelWithdrawal ctx id => cancelWithdrawal ctx id
  | .decideWithdrawal org id body => decideWithdrawal org id body
  | .markWithdrawalPaid org id txid => markWithdrawalPaid hashtext org id txid
  | .requestTransfer ctx body => requestTransfer hashtext ctx body
  | .cancelTransfer ctx id => cancelTransfer ctx id
  | .decideTransfer org id body => decideTransfer hashtext org id body
  | .linkInvestorAccount who a => linkInvestorAccount who a
  | .unlinkInvestorAccount who a => unlinkInvestorAccount hashtext who a
  | .grantBonus who body => grantBonus hashtext who body
  | .awardRuleBonus who kyc => awardRuleBonus hashtext who kyc
  | .postAdjustment who body => postAdjustment hashtext who body
  | .configure c => .auto (fun _ _ => ⟨[.config c], []⟩) (fun _ _ => .done .ok)

/-- A portal system: the committed tables, the sessions and their locks. -/
abbrev Sys : Type := ReadCommitted.Sys Db Write Lock Answer Request

end Portal
