import CopyTrading.Portal.Solvency

/-!
# Portal.Settlement — the ledger is a function of the requests

`Exact` at every committed state, `Grow` between any two states of a run, and what follows for the
sum over an investor's wallets: it is made of confirmed deposits, paid withdrawals, the account side
of done transfers, bonuses and adjustments, and nothing else.
-/

namespace Portal

open Relation ReadCommitted List

/-- The investor's money in all wallets. -/
def Db.total (db : Db) (v : Investor) : ℤ := (wallets.map (db.balance v)).sum

/-- What a done transfer adds to the investor's wallets: the account side of it. -/
def Transfer.accountSide (t : Transfer) : ℤ :=
  match t.ends with
  | .walletToWallet _ _ _ => 0
  | .walletToAccount _ _ => -t.amount.1
  | .accountToWallet _ _ => t.amount.1

/-- The investor's money as the requests and the adjustments make it. -/
def Db.expectedTotal (db : Db) (v : Investor) : ℤ :=
  db.deposits.sum (fun d => if d.who = v ∧ d.status = .confirmed then d.credited.getD 0 else 0) -
  db.withdrawals.sum (fun r => if r.who = v ∧ r.status = .paid then r.amount.1 else 0) +
  db.transfers.sum (fun t => if t.who = v ∧ t.status = .done then t.accountSide else 0) +
  db.bonuses.sum (fun b => if b.who = v then b.amount else 0) +
  db.entries.sum (fun e => if e.who = v ∧ e.kind = .adjustment ∧ e.ref = none then e.amount else 0)

section Total

variable {db : Db} (v : Investor)

/-- What a posting adds to an investor's wallets. -/
def Posting.owed (p : Posting) : ℤ := if p.who = v then p.amount else 0

theorem sum_map_sum {α : Type} [Keyed α ℕ] (t : Table α) (g : α → Multiset Posting) :
    ((t.sum g).map (Posting.owed v)).sum = t.sum fun r => ((g r).map (Posting.owed v)).sum := by
  unfold Table.sum
  induction t.rows with
  | nil => rfl
  | cons a l ih => simp [ih]

theorem total_eq : db.total v = db.entries.sum fun e => if e.who = v then e.amount else 0 := by
  unfold Db.total Db.balance Table.sum wallets
  induction db.entries.rows with
  | nil => rfl
  | cons e l ih =>
    simp only [map_cons, map_nil, sum_cons, sum_nil] at ih ⊢
    cases hw : e.wallet <;> by_cases hv : e.who = v <;> simp [hv] <;> omega

theorem deposit_owed (d : Deposit) :
    ((d.due : Multiset Posting).map (Posting.owed v)).sum =
      if d.who = v ∧ d.status = .confirmed then d.credited.getD 0 else 0 := by
  unfold Deposit.due
  by_cases hs : d.status = .confirmed <;> simp [hs, Posting.owed]

theorem withdrawal_owed (r : Withdrawal) :
    ((r.due : Multiset Posting).map (Posting.owed v)).sum =
      -(if r.who = v ∧ r.status = .paid then r.amount.1 else 0) := by
  unfold Withdrawal.due
  by_cases hs : r.status = .paid <;> by_cases hv : r.who = v <;> simp [hs, hv, Posting.owed]

theorem transfer_owed (t : Transfer) :
    ((t.due : Multiset Posting).map (Posting.owed v)).sum =
      if t.who = v ∧ t.status = .done then t.accountSide else 0 := by
  unfold Transfer.due Transfer.accountSide Transfer.legs Ends.legs
  by_cases hs : t.status = .done <;> by_cases hv : t.who = v <;> cases t.ends <;>
    simp [hs, hv, Posting.owed, Ends.sourceWallet, Ends.targetWallet]

theorem bonus_owed (b : Bonus) :
    ((b.due : Multiset Posting).map (Posting.owed v)).sum = if b.who = v then b.amount else 0 := by
  simp [Bonus.due, Posting.owed]

/-- An entry's amount is its posting's, or it is an adjustment. -/
theorem entry_owed (h : Exact db) {e : WalletEntry} (he : e ∈ db.entries.rows) :
    (if e.who = v then e.amount else 0) =
      ((e.posting.toList : Multiset Posting).map (Posting.owed v)).sum +
        if e.who = v ∧ e.kind = .adjustment ∧ e.ref = none then e.amount else 0 := by
  cases hr : e.ref with
  | none =>
    have hk := h.plain e he hr
    simp [WalletEntry.posting, hr, hk]
  | some r => simp [WalletEntry.posting, hr, Posting.owed]

theorem Exact.total (h : Exact db) : db.total v = db.expectedTotal v := by
  have hsum : db.entries.sum (fun e => if e.who = v then e.amount else 0) =
      (db.posted.map (Posting.owed v)).sum +
        db.entries.sum (fun e => if e.who = v ∧ e.kind = .adjustment ∧ e.ref = none then e.amount
          else 0) := by
    rw [Db.posted, sum_map_sum]
    unfold Table.sum
    rw [← sum_map_add]
    exact congrArg sum (map_congr_left fun e he => entry_owed v h he)
  rw [total_eq, hsum, h.posted, Db.due]
  simp only [Multiset.map_add, Multiset.sum_add, sum_map_sum, deposit_owed, withdrawal_owed,
    transfer_owed, bonus_owed]
  rw [Table.sum_neg]
  unfold Db.expectedTotal
  ring

end Total

/-! ### Histories -/

/-- A terminal status stays: nothing leads out of it. -/
theorem DepositStatus.terminal {x y : DepositStatus} (hx : x.next = [])
    (h : ReflTransGen (fun x y => DepositStatus.canTransition x y) x y) : y = x := by
  induction h with
  | refl => rfl
  | tail _ hs ih =>
    subst ih
    simp [DepositStatus.canTransition, hx] at hs

theorem WithdrawalStatus.terminal {x y : WithdrawalStatus} (hx : x.next = [])
    (h : ReflTransGen (fun x y => WithdrawalStatus.canTransition x y) x y) : y = x := by
  induction h with
  | refl => rfl
  | tail _ hs ih =>
    subst ih
    simp [WithdrawalStatus.canTransition, hx] at hs

theorem TransferStatus.terminal {x y : TransferStatus} (hx : x.next = [])
    (h : ReflTransGen (fun x y => TransferStatus.canTransition x y) x y) : y = x := by
  induction h with
  | refl => rfl
  | tail _ hs ih =>
    subst ih
    simp [TransferStatus.canTransition, hx] at hs

/-- Terminal statuses are never left. -/
structure TerminalKept (db db' : Db) : Prop where
  deposits : ∀ id d, db.deposits.find id = some d → d.status.next = [] →
    (db'.deposits.find id).map Deposit.status = some d.status
  withdrawals : ∀ id r, db.withdrawals.find id = some r → r.status.next = [] →
    (db'.withdrawals.find id).map Withdrawal.status = some r.status
  transfers : ∀ id t, db.transfers.find id = some t → t.status.next = [] →
    (db'.transfers.find id).map Transfer.status = some t.status

theorem Grow.terminalKept {db db' : Db} (h : Grow db db') : TerminalKept db db' where
  deposits id d hd hx := by
    obtain ⟨d', hd', -, hp⟩ := h.deposits id d hd
    rw [hd', Option.map_some, DepositStatus.terminal hx hp]
  withdrawals id r hr hx := by
    obtain ⟨r', hr', -, hp⟩ := h.withdrawals id r hr
    rw [hr', Option.map_some, WithdrawalStatus.terminal hx hp]
  transfers id t ht hx := by
    obtain ⟨t', ht', -, hp⟩ := h.transfers id t ht
    rw [ht', Option.map_some, TransferStatus.terminal hx hp]

/-- **Exactly-once settlement.**  In every committed state of every interleaving the referenced
entries are the postings that the requests are due, each once; from there on no entry is changed or
removed and every status follows its table; and an investor's money is what confirmed deposits, paid
withdrawals, account sides of done transfers, bonuses and adjustments make it. -/
theorem exactly_once_settlement (hashtext : String → ℤ) (accounts : Table Account) (config : Config)
    (s : Sys) (h : PortalRun hashtext anyTime (emptyLedger accounts config) s) :
    s.db.posted = s.db.due ∧
    (∀ e ∈ s.db.entries.rows, e.ref = none → e.kind = .adjustment) ∧
    (∀ s', PortalRun hashtext anyTime s s' →
      Grow s.db s'.db ∧ TerminalKept s.db s'.db) ∧
    ∀ v, s.db.total v = s.db.expectedTotal v := by
  have ho := anySchedule_owned hashtext
  obtain ⟨-, hx⟩ := run_induction (S := anySchedule hashtext) ho (P := fun _ => True) trivial
    (fun _ _ _ _ _ _ _ _ => trivial) h
  refine ⟨hx.posted, hx.plain, fun s' h' => ?_, fun v => hx.total v⟩
  have hg := run_grow (S := anySchedule hashtext) ho h h'
  exact ⟨hg, hg.terminalKept⟩

/-- A withdrawal paid once although its payment is reported twice. -/
theorem exactly_once_settlement_sample :
    ∃ s, PortalRun (fun _ => 0) anyTime (emptyLedger .empty sampleConfig) s ∧
      s.db.posted = {⟨⟨1, 1⟩, .main, -4000, .withdrawal, (.withdrawals, 1)⟩} ∧
      s.db.posted = s.db.due ∧
      (∀ e ∈ s.db.entries.rows, e.ref = none → e.kind = .adjustment) ∧
      (∀ s', PortalRun (fun _ => 0) anyTime s s' →
        Grow s.db s'.db ∧ TerminalKept s.db s'.db) ∧
      ∀ v, s.db.total v = s.db.expectedTotal v := by
  obtain ⟨s, hs, hp⟩ := exists_of_anyRun .empty
    (serve 0 (sampleDeposit 10000) 4 ++
      serve 1 (.requestWithdrawal ⟨1, 1⟩ ⟨none, .num 40, 7, false⟩) 8 ++
      serve 2 (.decideWithdrawal 1 1 ⟨.approved, ""⟩) 2 ++
      -- both reports read the approved row before either takes the ledger lock
      [.start 3 (.markWithdrawalPaid 1 1 "tx"), .start 4 (.markWithdrawalPaid 1 1 "tx"),
        .run 3, .run 4] ++
      replicate 4 (.run 3) ++ replicate 3 (.run 4))
    (P := fun s => s.db.posted = {⟨⟨1, 1⟩, .main, -4000, .withdrawal, (.withdrawals, 1)⟩})
    (by decide +kernel)
  exact ⟨s, hs, hp, exactly_once_settlement _ _ _ s hs⟩

end Portal
