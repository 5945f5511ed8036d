import CopyTrading.Portal.Schema

/-!
# Portal.Common — the helpers every money route is built from (`portal_common.py`)

A helper that runs SQL takes the rest of the request as its last argument.  What one `SELECT` reads
is a function of the state it sees (`Db.…`); a helper with several `SELECT`s is several statements,
between which other sessions may commit.
-/

namespace Portal

/-! ### What one `SELECT` reads -/

namespace Db

variable (db : Db) (who : Investor)

/-- `owns_account`. -/
def ownsAccount (a : ℕ) : Bool :=
  match db.accounts.find a with
  | some r => r.org == who.org && r.investor == some who.user
  | none => false

/-- `linked_accounts`, oldest id first. -/
def linkedAccounts : List ℕ :=
  ((db.accounts.rows.filter fun r => r.org == who.org && r.investor == some who.user).map
    Account.id).insertionSort (· ≤ ·)

/-- `wallet_balances`.  The query groups by wallet before `balance` adds up; the sums are those of
the single rows. -/
def walletBalances : Wallet → ℤ :=
  balance ((db.entries.rows.filter fun e => e.who = who).map fun e => (e.wallet, e.amount))

/-- The first query of `wallet_holds`. -/
def openWithdrawals : List ℤ :=
  (db.withdrawals.rows.filter fun w => w.who = who && w.status.isOpen).map fun w => w.amount.1

/-- The second query of `wallet_holds`. -/
def openTransfers : List (Wallet × ℤ) :=
  (db.transfers.rows.filter fun t => t.who = who && t.status.isOpen).filterMap fun t =>
    t.ends.sourceWallet.map fun w => (w, t.amount.1)

/-- `open_account_transfers_out`. -/
def openAccountTransfersOut (a : ℕ) : ℤ :=
  db.transfers.sum fun t =>
    if t.who = who ∧ t.ends.sourceAccount = some a ∧ t.status.isOpen then t.amount.1 else 0

/-- `credit_transfer_open`. -/
def creditTransferOpen (a : ℕ) : Bool :=
  db.transfers.rows.any fun t =>
    t.who = who && t.status.isOpen && t.ends = .walletToAccount .credit (some a)

/-- `credit_funded`. -/
def creditFunded (a : ℕ) : ℤ :=
  db.transfers.sum fun t =>
    if t.who = who ∧ t.status = .done ∧ t.ends = .walletToAccount .credit (some a)
    then t.amount.1 else 0

/-- An open transfer of the investor names the account at either end. -/
def openTransferNames (a : ℕ) : Bool :=
  db.transfers.rows.any fun t =>
    t.who = who && t.status.isOpen &&
      (t.ends.sourceAccount = some a || t.ends.targetAccount = some a)

/-- The arbiter of `wallet_entries_one_per_ref`. -/
def settled (ref : RefTable × ℕ) (w : Wallet) : Bool :=
  db.entries.rows.any fun e => e.ref = some ref && e.wallet = w

/-- The arbiters of `bonuses_once_per_user` and `bonuses_once_per_deposit`. -/
def bonusTaken (source : BonusSource) (sourceId : Option ℕ) : Bool :=
  db.bonuses.rows.any fun b =>
    match source with
    | .signup | .kyc => b.who = who && b.source = source
    | .deposit => b.who.org = who.org && b.source = .deposit && b.sourceId = sourceId
    | .manual => false

end Db

/-! ### Helpers with statements -/

/-- `raise HTTPException` before a transaction. -/
def refuse (status : ℕ) (detail : String) : Prog := .done (.error status detail)

/-- `raise HTTPException` inside a transaction, which it rolls back. -/
def rollback (status : ℕ) (detail : String) : Prog := .abort (.error status detail)

/-- The key of `lock_investor_ledger`; `hashtext` may send several investors to one key. -/
def ledgerLock (hashtext : String → ℤ) (who : Investor) : Lock :=
  .ledger (hashtext (toString who.org ++ ":" ++ toString who.user))

/-- `lock_investor_ledger`. -/
def lockInvestorLedger (hashtext : String → ℤ) (who : Investor) (p : Prog) : Prog :=
  .lock (ledgerLock hashtext who) p

/-- The `available` figure of `wallet_figures`: three `SELECT`s. -/
def walletAvailable (who : Investor) (w : Wallet) (k : ℤ → Prog) : Prog :=
  .select fun db₁ => .select fun db₂ => .select fun db₃ =>
    k (available (db₁.walletBalances who w)
      (holds (db₂.openWithdrawals who) (db₃.openTransfers who) w))

/-- `account_movable`. -/
def accountMovable (who : Investor) (a : ℕ) (equity : ℚ) (k : ℤ → Prog) : Prog :=
  .select fun db₁ => .select fun db₂ =>
    k (max (floorCents (equity - toDecimal (db₁.openAccountTransfersOut who a) -
      toDecimal (db₂.creditFunded who a))) 0)

/-- `pick_account`, before any transaction. -/
def pickAccount (who : Investor) (account : Option ℕ) (field : String) (k : ℕ → Prog) : Prog :=
  match account with
  | some a => .select fun db =>
    if db.ownsAccount who a then k a else refuse 404 "Account not found"
  | none => .select fun db =>
    match db.linkedAccounts who with
    | [] => refuse 409 "no account linked yet"
    | [a] => k a
    | _ => refuse 400 (field ++ " is required")

/-- `account_limit_text`. -/
def accountLimitText (limit : ℕ) : String :=
  "you have reached the limit of " ++ toString limit ++ " live accounts"

/-- `link_account`, inside the caller's transaction; it takes no ledger lock. -/
def linkAccount (who : Investor) (a : ℕ) (mt5Only : Bool) (p : Prog) : Prog :=
  .select fun db₁ =>
    if db₁.ownsAccount who a then p
    else .select fun db₂ =>
      match db₂.accounts.find a with
      | none => rollback 404 "Account not found in this workspace, or already linked"
      | some r =>
        if r.org ≠ who.org then
          rollback 404 "Account not found in this workspace, or already linked"
        else if r.role = .master then
          rollback 400 "The master account cannot be linked to an investor"
        else if mt5Only && !r.mt5 then rollback 400 "Only an MT5 account can be linked here"
        else .select fun db₃ =>
          let limit := (db₃.config.settings who.org).maxLiveAccounts
          .select fun db₄ =>
            if limit ≤ (db₄.linkedAccounts who).length then rollback 409 (accountLimitText limit)
            else
              let free (db : Db) : Bool := match db.accounts.find a with
                | some r => r.org = who.org && r.investor = none
                | none => false
              .exec
                (fun db _ => if free db then ⟨[.owner a (some who.user)], [.accountRow a]⟩ else ⟨[], []⟩)
                (fun db _ => if free db then p else
                  rollback 404 "Account not found in this workspace, or already linked")

/-- `settle`: the only writer of referenced entries.  The rest is told whether a row was written. -/
def settle (who : Investor) (w : Wallet) (amount : ℤ) (ne : amount ≠ 0) (kind : EntryKind)
    (ref : RefTable × ℕ) (k : Bool → Prog) : Prog :=
  .exec
    (fun db id => if db.settled ref w then ⟨[], []⟩ else
      ⟨[.entry ⟨id, who, w, amount, kind, some ref, ne⟩], [.entryRow id, .entryRef ref.1 ref.2 w]⟩)
    (fun db _ => k (!db.settled ref w))

/-- The rules of `rule_bonus`; the types leave out the calls it answers with `ValueError` (the
`manual` source, a deposit without its amount). -/
inductive Rule where
  | signup | kyc | deposit (base : ℤ)
  deriving DecidableEq

def Rule.source : Rule → BonusSource
  | .signup => .signup
  | .kyc => .kyc
  | .deposit _ => .deposit

/-- What the org's rules pay: 0 while the rule is off. -/
def BonusRules.pays (r : BonusRules) : Rule → ℤ
  | .signup => if r.signupEnabled then r.signupAmount else 0
  | .kyc => if r.kycEnabled then r.kycAmount else 0
  | .deposit base => if r.depositEnabled then depositBonus base r.depositPct r.depositCap else 0

theorem BonusRules.pays_nonneg (r : BonusRules) (rule : Rule)
    (h : ∀ b, rule = .deposit b → 0 ≤ b) : 0 ≤ r.pays rule := by
  cases rule with
  | signup => simp only [pays]; split_ifs; exacts [r.signup_nonneg, le_rfl]
  | kyc => simp only [pays]; split_ifs; exacts [r.kyc_nonneg, le_rfl]
  | deposit b =>
    simp only [pays]
    split_ifs
    · exact depositBonus_nonneg (h b rfl) r.pct_nonneg fun c hc => (r.cap_pos c hc).le
    · exact le_rfl

/-- `rule_bonus`. -/
def ruleBonus (org : ℕ) (rule : Rule) (k : ℤ → Prog) : Prog :=
  .select fun db => k ((db.config.rules org).pays rule)

/-- The unique-index key a bonus row is inserted under. -/
def bonusKey (who : Investor) (source : BonusSource) (sourceId : Option ℕ) : List Lock :=
  match source, sourceId with
  | .signup, _ | .kyc, _ => [.bonusOnce who source]
  | .deposit, some id => [.bonusDeposit who.org id]
  | _, _ => []

/-- `pay_bonus`, inside the caller's transaction.  A row that breaks a `CHECK` is an exception. -/
def payBonus (who : Investor) (source : BonusSource) (amount : ℤ) (sourceId : Option ℕ)
    (k : Option ℕ → Prog) : Prog :=
  if h0 : amount = 0 then k none
  else if hc : (0 < amount ∨ source = .manual) ∧ (source = .deposit ↔ sourceId.isSome) then
    .exec
      (fun db id => if db.bonusTaken who source sourceId then ⟨[], []⟩ else
        ⟨[.bonus ⟨id, who, source, sourceId, amount, h0, hc.1, hc.2⟩],
          .bonusRow id :: bonusKey who source sourceId⟩)
      (fun db id => if db.bonusTaken who source sourceId then k none else
        settle who .credit amount h0 .bonus (.bonuses, id) fun wrote =>
          if wrote then k (some id) else rollback 500 "Internal Server Error")
  else rollback 500 "Internal Server Error"

/-- `clean_text` of a stripped text. -/
def cleanText (text : String) (field : String) (maxLen : ℕ) (required : Bool) :
    Except String (Option String) :=
  if text = "" then
    if required then .error (field ++ " is required") else .ok none
  else if maxLen < text.length then
    .error (field ++ " must be at most " ++ toString maxLen ++ " characters")
  else .ok (some text)

/-- `MAX_TEXT`. -/
def maxText : ℕ := 128

/-- `require_note_on_reject`. -/
def requireNoteOnReject (rejected : Bool) (note : String) : Except String (Option String) :=
  cleanText note "note" 500 rejected

/-- The text of a hand-posted amount, as `parse_signed_amount` tells them apart: absent, not of the
form `[+-]?[0-9]+(\.[0-9]{1,2})?`, or a sign and a number of cents. -/
inductive SignedRaw where
  | missing | malformed | signed (negative : Bool) (cents : ℕ)
  deriving DecidableEq

/-- `parse_signed_amount`. -/
def parseSignedAmount (raw : SignedRaw) : Except String { c : ℤ // c ≠ 0 } :=
  match raw with
  | .malformed => .error "amount must be a signed number with at most two decimals, e.g. -25.00"
  | .missing => .error "amount is required, e.g. 250.00"
  | .signed neg c =>
    if c = 0 then .error "amount must not be zero"
    else match parseAmount (.num (toDecimal c)) "amount" with
      | .error e => .error e
      | .ok a => .ok (if neg then ⟨-a.1, by have := a.2; omega⟩ else ⟨a.1, by have := a.2; omega⟩)

end Portal
