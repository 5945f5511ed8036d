import CopyTrading.Portal.Safety

/-!
# Portal.RoutesSafe — the routes, one by one

Each route is safe from every committed state (`route_ok`), so the soundness of the rule gives, for
every interleaving, that the committed states are linked by portal actions (`run_inv`, `run_step`).
-/

namespace Portal

variable {P : Sys → Prop}

open Relation ReadCommitted

namespace Db

variable {db : Db} {id org : ℕ}

theorem depositIs_iff {st : DepositStatus} : db.depositIs id org st = true ↔
    ∃ d, db.deposits.find id = some d ∧ d.who.org = org ∧ d.status = st := by
  unfold depositIs
  cases db.deposits.find id <;> simp

theorem withdrawalIs_iff {st : WithdrawalStatus} : db.withdrawalIs id org st = true ↔
    ∃ r, db.withdrawals.find id = some r ∧ r.who.org = org ∧ r.status = st := by
  unfold withdrawalIs
  cases db.withdrawals.find id <;> simp

theorem transferIs_iff {st : TransferStatus} : db.transferIs id org st = true ↔
    ∃ t, db.transfers.find id = some t ∧ t.who.org = org ∧ t.status = st := by
  unfold transferIs
  cases db.transfers.find id <;> simp

end Db

namespace Setting

variable {S : Setting} {q : Request} {H : Set Lock} {ws : List Write} {db : Db} {n : ℕ}
  {ctx who : Investor} {amount credited : Amount} {reference note : String}
  {receipt account : Option ℕ} {target : DepositTarget} {p : Prog} {k : ℕ → Prog}
  {body : TransferRequest} {id org a : ℕ} {ends : Ends} {st new : TransferStatus}
  {equity : Option ℚ} {w : Wallet}

/-! ### Deposits -/

theorem ok_insertDeposit {fee : ℤ} :
    S.Ok q (insertDeposit ctx amount fee reference receipt target account) H ws db n := by
  intro db' n' hi
  cases hc : db'.depositConflict ctx.org reference receipt with
  | some a =>
    simp only [hc]
    exact ⟨.refl, trivial⟩
  | none =>
    simp only [hc]
    refine ⟨.single ⟨[.deposit ⟨n', ctx, amount, fee, none, reference, receipt, target, account,
      .pending⟩], ?_, .fileDeposit _ rfl, rfl⟩, trivial⟩
    exact ⟨⟨Nat.lt_succ_self _, by simp, find_fresh hi.inv.1.deposits⟩, trivial⟩

theorem ok_receiptGate
    (h : ∀ db n, S.Ok q p H ws db n) : S.Ok q (receiptGate ctx receipt p) H ws db n := by
  cases receipt with
  | none => exact h db n
  | some f =>
    intro db₁ n₁ _
    refine ok_unless fun _ db₂ n₂ _ => ?_
    exact ok_ite (fun _ => h db₂ n₂) fun _ => trivial

theorem ok_pickAccount {field : String}
    (h : ∀ a db n, S.Ok q (k a) H ws db n) : S.Ok q (pickAccount who account field k) H ws db n := by
  cases account with
  | some a =>
    intro db₁ n₁ _
    exact ok_ite (fun _ => h a db₁ n₁) fun _ => trivial
  | none =>
    intro db₁ n₁ _
    dsimp only
    split
    · trivial
    · exact h _ db₁ n₁
    · trivial

theorem ok_targetGate {k : Option ℕ → Prog} (h : ∀ a db n, S.Ok q (k a) H ws db n) :
    S.Ok q (targetGate ctx target account k) H ws db n := by
  cases target with
  | wallet => exact h none db n
  | account =>
    intro db₁ n₁ _
    refine ok_unless fun _ => ?_
    exact ok_pickAccount fun a db₂ n₂ => h (some a) db₂ n₂

theorem ok_fileNotice {body : DepositNotice} :
    S.Ok q (fileNotice ctx body amount reference target) H ws db n := by
  intro db₁ n₁ _
  dsimp only
  split
  · trivial
  · refine ok_unless fun _ => ok_unless fun _ =>
      ok_unless fun _ => ?_
    refine ok_receiptGate fun db₂ n₂ => ok_targetGate fun account db₃ n₃ => ?_
    exact ok_unless fun _ => ok_insertDeposit

theorem ok_fileDeposit {body : DepositNotice} : S.Ok q (fileDeposit ctx body) H ws db n := by
  refine ok_attempt fun amount _ => ok_attempt fun reference _ => ok_attempt fun _ _ => ?_
  cases body.target with
  | absent | wallet | account => exact ok_fileNotice
  | other => trivial

theorem ok_cancelDeposit : S.Ok q (cancelDeposit ctx id) H ws db n := by
  intro db₁ n₁ _
  dsimp only
  split
  · trivial
  · refine ok_unless fun _ => ok_unless fun _ => ?_
    refine ok_updateRowAuto fun db₂ m hh => ⟨?_, .closeDeposit _ _ _ (by simp)⟩
    obtain ⟨d, hd, -, hs⟩ := Db.depositIs_iff.1 hh
    exact ⟨rfl, d, hd, by rw [hs]; decide⟩

/-- The row a decision names, and the investor it belongs to. -/
theorem ok_depositNow {new : DepositStatus} {k : Deposit → Prog}
    (h : ∀ d db n, db.deposits.find id = some d → S.Ok q (k d) ∅ [] db n) :
    S.Ok q (depositNow org id new note k) ∅ [] db n := by
  refine ok_attempt fun _ _ db₁ n₁ _ => ?_
  dsimp only
  split
  · trivial
  · rename_i d hd
    refine ok_unless fun _ => ok_unless fun _ => ?_
    exact h d db₁ n₁ hd

theorem ok_depositBonusCommit
    (hl : ledgerLock S.hashtext who ∈ H) (ht : LegalAll S.hashtext n H db ws)
    (hb : Base S who H ws db) : S.Ok q (depositBonusCommit org id who credited) H ws db n := by
  intro db₁ n₁ h₁
  have hlater := interf_later hl h₁
  refine ok_payBonus hl (legalAll_interf ht h₁) (hb.later subset_rfl hlater) fun hneg => ?_
  -- a rule never pays a negative amount
  exfalso
  refine absurd hneg (not_lt.2 (BonusRules.pays_nonneg _ _ fun b hbase => ?_))
  cases hbase
  exact credited.2.le

theorem ok_confirmWrites {linked : Option ℕ} (hl : ledgerLock S.hashtext who ∈ H)
    (hd : ∃ d, db.deposits.find id = some d ∧ d.who = who)
    (ho : ∀ a, linked = some a → db.ownsAccount who a) :
    S.Ok q (confirmWrites org id who credited linked) H [] db n := by
  refine ok_updateRow hl (fun db₁ _ hh m => ?_) (fun db₁ n₁ hl₁ _ hleg₁ => ?_) fun _ _ _ _ => trivial
  · obtain ⟨d, hf, -, hs⟩ := Db.depositIs_iff.1 hh
    exact ⟨.inr rfl, d, hf, by rw [hs]; decide⟩
  refine ok_settle (.inl hl) hleg₁ (fun db₂ m _ hx hleg₂ => ?_)
    fun eid db₂ n₂ H₂ hH₂ hl₂ hleg₂ => ?_
  · obtain ⟨⟨-, d, hf, hc⟩, -⟩ := hleg₂
    refine hx.not_settled ?_
    rintro ⟨d', hf', hs⟩
    obtain rfl : d = d' := Option.some.inj (hf.symm.trans hf')
    rw [DepositStatus.pending_of_next hc] at hs
    cases hs
  -- the row at any later time is the investor's
  have hrow : ∀ db', Later who db₂ db' → ∃ d, db'.deposits.find id = some d ∧ d.who = who := by
    intro db' hlater
    obtain ⟨d, hf, hw⟩ := hd
    obtain ⟨d', hf', he, -⟩ := (hl₁.trans (hl₂.trans hlater)).grow.deposits id d hf
    exact ⟨d', hf', by rw [he]; exact hw⟩
  cases linked with
  | none =>
    refine ok_depositBonusCommit (hH₂ (.inl hl)) hleg₂ fun db₃ m H₃ hH₃ hl₃ hleg₃ => ?_
    obtain ⟨d, hf, rfl⟩ := hrow db₃ hl₃
    exact .single ⟨_, hleg₃, .confirmDeposit id d credited _ hf rfl, rfl⟩
  | some a =>
    refine ok_insert (hH₂ (.inl hl)) hleg₂ (fun db₃ m hl₃ hleg₃ hb => ?_)
      fun db₃ m H₃ hH₃ hm hl₃ hleg₃ => ?_
    · exact ⟨Nat.lt_succ_self _, .inr (by simp), find_fresh hb.transfers, .inl (hH₂ (.inl hl))⟩
    refine ok_depositBonusCommit (hH₃ (hH₂ (.inl hl))) hleg₃ fun db₄ k H₄ hH₄ hl₄ hleg₄ => ?_
    obtain ⟨d, hf, rfl⟩ := hrow db₄ (hl₃.trans hl₄)
    refine .single ⟨_, hleg₄, .fundDeposit id d credited _ m a hf rfl ?_, rfl⟩
    exact (hl₁.trans (hl₂.trans (hl₃.trans hl₄))).steady.ownsAccount a (ho a rfl)

theorem ok_confirmDeposit {d : Deposit} (hd : db.deposits.find id = some d) :
    S.Ok q (confirmDeposit S.hashtext org id d credited) ∅ [] db n := by
  refine ok_lockInvestorLedger fun db₁ n₁ _ hl hg _ => ?_
  have hrow : ∀ db', Grow db₁ db' → ∃ d', db'.deposits.find id = some d' ∧ d'.who = d.who := by
    intro db' hg'
    obtain ⟨d', hf', he, -⟩ := (hg.trans hg').deposits id d hd
    exact ⟨d', hf', by rw [he]⟩
  split
  · rename_i a _ _
    intro db₂ n₂ h₂
    refine ok_ite (fun ho => ?_) fun _ => ?_
    · refine ok_confirmWrites hl (hrow db₂ (interf_grow h₂)) fun b hb => ?_
      cases hb
      exact ho
    · exact ok_confirmWrites hl (hrow db₂ (interf_grow h₂)) (by simp)
  · exact ok_confirmWrites hl (hrow db₁ (.refl db₁)) (by simp)

theorem ok_decideDeposit {body : DepositDecision} :
    S.Ok q (decideDeposit S.hashtext org id body) ∅ [] db n := by
  unfold decideDeposit
  split
  · exact ok_depositNow fun d db₁ n₁ hd => ok_attempt fun credited _ => ok_confirmDeposit hd
  · refine ok_depositNow fun d db₁ n₁ hd => ok_lockInvestorLedger fun db₂ n₂ _ hl _ _ => ?_
    refine ok_updateRow hl (fun db₃ _ hh m => ?_) (fun db₃ n₃ _ _ hleg => ?_) fun _ _ _ _ => trivial
    · obtain ⟨d', hf, -, hs⟩ := Db.depositIs_iff.1 hh
      exact ⟨.inr rfl, d', hf, by rw [hs]; decide⟩
    · exact ok_commit (.inl hl) hleg fun _ _ _ _ => .closeDeposit _ _ _ (by decide)
  · trivial

/-! ### Withdrawals -/

theorem ok_requestWithdrawal {body : WithdrawalRequest} :
    S.Ok q (requestWithdrawal S.hashtext ctx body) ∅ [] db n := by
  refine ok_requireMpin (ok_attempt fun amount _ db₁ n₁ _ => ?_)
  dsimp only
  split
  · trivial
  · refine ok_unless fun _ db₂ n₂ _ => ok_unless fun _ => ?_
    refine ok_lockInvestorLedger fun db₃ n₃ _ hl _ _ => ?_
    refine ok_walletAvailable hl fun db₄ n₄ avail _ hav => ok_unlessRollback fun hlt => ?_
    refine ok_unlessRollback fun _ => ok_unlessRollback fun _ => ?_
    refine ok_insert hl (by trivial) (fun db₅ m _ _ hb => ?_) fun db₅ m H₅ hH hm hl₅ hleg => ?_
    · exact ⟨Nat.lt_succ_self _, .inr (by simp), find_fresh hb.withdrawals, .inl hl⟩
    · refine ok_commit (hH hl) hleg fun db₆ k hl₆ _ => .requestWithdrawal _ rfl ?_
      exact ((not_lt.1 hlt).trans hav).trans ((hl₅.trans hl₆).steady.available .main)

theorem ok_cancelWithdrawal : S.Ok q (cancelWithdrawal ctx id) H ws db n := by
  intro db₁ n₁ _
  dsimp only
  split
  · trivial
  · refine ok_unless fun _ => ok_unless fun hc => ?_
    refine ok_updateRowAuto fun db₂ m hh => ⟨?_, .moveWithdrawal _ _ (by simp)⟩
    obtain ⟨r', hf, -, hs⟩ := Db.withdrawalIs_iff.1 hh
    exact ⟨rfl, r', hf, by rw [hs]; exact not_not.1 hc⟩

theorem ok_withdrawalDecision {new : WithdrawalStatus}
    (hnew : new ≠ .paid) : S.Ok q (withdrawalDecision org id new note) H ws db n := by
  refine ok_attempt fun _ _ db₁ n₁ _ => ?_
  dsimp only
  split
  · trivial
  · refine ok_unless fun _ => ok_unless fun hc => ?_
    refine ok_updateRowAuto fun db₂ m hh => ⟨?_, .moveWithdrawal _ _ hnew⟩
    obtain ⟨r', hf, -, hs⟩ := Db.withdrawalIs_iff.1 hh
    exact ⟨rfl, r', hf, by rw [hs]; exact not_not.1 hc⟩

theorem ok_decideWithdrawal {body : Decision} :
    S.Ok q (decideWithdrawal org id body) H ws db n := by
  unfold decideWithdrawal
  split
  · exact ok_withdrawalDecision (by decide)
  · exact ok_withdrawalDecision (by decide)
  · trivial

theorem ok_markWithdrawalPaid {txid : String} :
    S.Ok q (markWithdrawalPaid S.hashtext org id txid) ∅ [] db n := by
  refine ok_attempt fun _ _ db₁ n₁ _ => ?_
  dsimp only
  split
  · trivial
  · rename_i r hr
    refine ok_unless fun _ => ok_unless fun _ => ?_
    refine ok_lockInvestorLedger fun db₂ n₂ _ hl hg₂ _ => ?_
    refine ok_updateRow hl (fun db₃ _ hh m => ?_) (fun db₃ n₃ hl₃ _ hleg₃ => ?_) fun _ _ _ _ => trivial
    · obtain ⟨r', hf, -, hs⟩ := Db.withdrawalIs_iff.1 hh
      exact ⟨.inr rfl, r', hf, by rw [hs]; decide⟩
    refine ok_settle (.inl hl) hleg₃ (fun db₄ m _ hx hleg₄ => ?_)
      fun eid db₄ n₄ H₄ hH₄ hl₄ hleg₄ => ?_
    · obtain ⟨⟨-, r', hf, hc⟩, -⟩ := hleg₄
      refine hx.not_settled ?_
      rintro ⟨r'', hf', hs⟩
      obtain rfl : r' = r'' := Option.some.inj (hf.symm.trans hf')
      exact WithdrawalStatus.ne_paid_of_next hc hs
    · refine ok_commit (hH₄ (.inl hl)) hleg₄ fun db₅ m hl₅ _ => ?_
      obtain ⟨r', hf', he, -⟩ :=
        (hg₂.trans (hl₃.trans (hl₄.trans hl₅)).grow).withdrawals id r hr
      refine .payWithdrawal id r' _ hf' ?_
      rw [he]
      rfl

/-! ### Transfers -/

theorem ok_insertTransfer {live : Bool}
    (hl : ledgerLock S.hashtext ctx ∈ H)
    (hk : ∀ db' m H', H ⊆ H' → Later ctx db db' →
      LegalAll S.hashtext (m + 1) H' db'
        [.transfer ⟨m, ctx, ends, amount, st, equity.map roundCents, live⟩] →
      S.Ok q (k m) H' [.transfer ⟨m, ctx, ends, amount, st, equity.map roundCents, live⟩] db'
        (m + 1)) :
    S.Ok q (insertTransfer ctx body ends amount st equity live k) H [] db n := by
  refine ok_unlessRollback fun _ => ?_
  refine ok_insert hl (by trivial) (fun db₁ m _ _ hb => ?_) fun db₁ m H₁ hH _ hl₁ hleg => ?_
  · exact ⟨Nat.lt_succ_self _, .inr (by simp), find_fresh hb.transfers, .inl hl⟩
  · exact hk db₁ m H₁ hH hl₁ hleg

theorem ok_walletCap (hl : ledgerLock S.hashtext ctx ∈ H)
    (hp : ∀ db' n', Later ctx db db' → amount.1 ≤ db'.available ctx w → S.Ok q p H [] db' n') :
    S.Ok q (walletCap ctx w amount p) H [] db n := by
  refine ok_walletAvailable hl fun db₁ n₁ avail hl₁ hav => ok_unlessRollback fun hlt => ?_
  exact hp db₁ n₁ hl₁ ((not_lt.1 hlt).trans hav)

/-- The wallet rows of a transfer that is done in this transaction: `ws` holds the transfer's own
write and no entry yet. -/
theorem ok_settleEnds {w : Write}
    (hl : ledgerLock S.hashtext who ∈ H) (ht : LegalAll S.hashtext n H db [w])
    (hw : ∀ db' m H' x, Exact db' → LegalAll S.hashtext m H' db' [w] →
      (Db.put w db').settled (.transfers, id) x = false)
    (hk : ∀ db' m H' (es : List WalletEntry), H ⊆ H' → Later who db db' →
      es.map WalletEntry.posting = (ends.legs who amount id).map some →
      LegalAll S.hashtext m H' db' (w :: es.map .entry) →
      S.Ok q (.commit (.done .ok)) H' (w :: es.map .entry) db' m) :
    S.Ok q (settleEnds who ends amount id (.commit (.done .ok))) H [w] db n := by
  cases ends with
  | walletToAccount s a =>
    simp only [settleEnds, Ends.sourceWallet, Ends.targetWallet]
    refine ok_settle hl ht (fun db₁ m _ hx hleg => hw db₁ m H s hx hleg)
      fun eid db₁ n₁ H₁ hH hl₁ hleg => ?_
    exact hk db₁ n₁ H₁ [_] hH hl₁ rfl hleg
  | accountToWallet a t =>
    simp only [settleEnds, Ends.sourceWallet, Ends.targetWallet]
    refine ok_settle hl ht (fun db₁ m _ hx hleg => hw db₁ m H t hx hleg)
      fun eid db₁ n₁ H₁ hH hl₁ hleg => ?_
    exact hk db₁ n₁ H₁ [_] hH hl₁ rfl hleg
  | walletToWallet s t ne =>
    simp only [settleEnds, Ends.sourceWallet, Ends.targetWallet]
    refine ok_settle hl ht (fun db₁ m _ hx hleg => hw db₁ m H s hx hleg)
      fun eid db₁ n₁ H₁ hH hl₁ hleg => ?_
    refine ok_settle (hH hl) hleg (fun db₂ m hl₂ hx hleg₂ => ?_)
      fun eid' db₂ n₂ H₂ hH₂ hl₂ hleg₂ => ?_
    · exact settled_entry ne (hw db₂ m H₁ t hx ⟨hleg₂.1, trivial⟩)
    · exact hk db₂ n₂ H₂ [_, _] (hH.trans hH₂) (hl₁.trans hl₂) rfl hleg₂

theorem ok_moveInstant {s t : Wallet}
    {ne : s ≠ t} : S.Ok q (moveInstant S.hashtext ctx body amount s t ne) ∅ [] db n := by
  refine ok_lockInvestorLedger fun db₁ n₁ _ hl _ _ => ?_
  refine ok_walletCap hl fun db₂ n₂ _ hav => ok_insertTransfer hl fun db₃ m H₃ hH hl₃ hleg => ?_
  refine ok_settleEnds (hH hl) hleg (fun db₄ m₄ H₄ x hx hleg₄ => ?_)
    fun db₄ m₄ H₄ es hH₄ hl₄ hp hleg₄ => ?_
  · -- the row is new, so no entry refers to it
    refine hx.not_settled ?_
    rintro ⟨t, hf, -⟩
    rw [hleg₄.1.2.2.1] at hf
    cases hf
  · refine ok_commit (hH₄ (hH hl)) hleg₄ fun db₅ k hl₅ _ => .moveInstant _ s t ne es rfl rfl ?_ hp
    exact hav.trans ((hl₃.trans (hl₄.trans hl₅)).steady.available s)

theorem ok_insertIn (hl : ledgerLock S.hashtext ctx ∈ H)
    (hx : w = .credit → ¬ 0 < db.openAccountTransfersOut ctx a)
    (ho : S.own → db.ownsAccount ctx a) : S.Ok q (insertIn ctx body amount w a) H [] db n := by
  refine ok_walletCap hl fun db₁ n₁ hl₁ hav => ok_insertTransfer hl fun db₂ m H₂ hH hl₂ hleg => ?_
  refine ok_commit (hH hl) hleg fun db₃ k hl₃ _ => ?_
  have hs := (hl₁.trans (hl₂.trans hl₃)).steady
  refine .moveIn _ w a rfl rfl ?_ (fun hw hp => ?_) fun h => hs.ownsAccount a (ho h)
  · exact hav.trans ((hl₂.trans hl₃).steady.available w)
  · exact hx hw (hp.trans_le (hs.outflow a))

theorem ok_moveIn
    (ho : ∀ db, S.sched q (ledgerLock S.hashtext ctx) db → S.own → db.ownsAccount ctx a) :
    S.Ok q (moveIn S.hashtext ctx body amount w a) ∅ [] db n := by
  refine ok_lockInvestorLedger fun db₁ n₁ _ hl _ hs => ?_
  refine ok_ite (fun hw db₂ n₂ h₂ => ok_unlessRollback fun hx => ?_) fun hw => ?_
  · refine ok_insertIn hl (fun _ => hx) fun h => ?_
    exact (interf_steady hl h₂).ownsAccount a (ho db₁ hs h)
  · exact ok_insertIn hl (fun h => absurd h hw) (ho db₁ hs)

theorem movable_le {db db' : Db} (h : Steady who db db') (a : ℕ) (e : ℚ) :
    db.movable who a e ≤ db'.movable who a e := by
  have h₁ := toDecimal_mono (h.outflow a)
  unfold Db.movable
  rw [h.creditFunded a]
  exact max_le_max (floorCents_mono (by linarith)) le_rfl

theorem ok_accountCap (hl : ledgerLock S.hashtext ctx ∈ H)
    (hp : ∀ db' n', Later ctx db db' →
      (∀ e, equity = some e → amount.1 ≤ db'.movable ctx a e) →
      (equity = none → ¬ 0 < db'.creditFunded ctx a) → S.Ok q p H [] db' n') :
    S.Ok q (accountCap ctx a amount equity p) H [] db n := by
  cases equity with
  | none =>
    intro db₁ n₁ h₁
    refine ok_unlessRollback fun hf => ?_
    exact hp db₁ n₁ (interf_later hl h₁) (by simp) fun _ => hf
  | some e =>
    intro db₁ n₁ h₁ db₂ n₂ h₂
    refine ok_unlessRollback fun hlt => ?_
    have hl₂ := interf_later hl h₂
    refine hp db₂ n₂ ((interf_later hl h₁).trans hl₂) (fun e' he => ?_) (by simp)
    cases he
    refine (not_lt.1 hlt).trans (max_le_max (floorCents_mono ?_) le_rfl)
    have h₁ := toDecimal_mono (hl₂.steady.outflow a)
    exact sub_le_sub_right (sub_le_sub_left h₁ e) _

theorem ok_moveOut
    (ho : ∀ db, S.sched q (ledgerLock S.hashtext ctx) db → S.own → db.ownsAccount ctx a) :
    S.Ok q (moveOut S.hashtext ctx body amount a w) ∅ [] db n := by
  refine ok_lockInvestorLedger fun db₁ n₁ _ hl _ hs db₂ n₂ h₂ => ok_unlessRollback fun hx => ?_
  refine ok_accountCap hl fun db₃ n₃ hl₃ hm hu =>
    ok_insertTransfer hl fun db₄ m H₄ hH hl₄ hleg => ?_
  refine ok_commit (hH hl) hleg fun db₅ k hl₅ _ => ?_
  have s₂ := interf_steady hl h₂
  have s₃ := (hl₃.trans (hl₄.trans hl₅)).steady
  have s₄ := (hl₄.trans hl₅).steady
  refine .moveOut _ a w body.equity rfl rfl rfl (fun hc => hx ?_)
    (fun e he => (hm e he).trans (movable_le s₄ a e)) (fun hn => ?_)
    fun h => (s₂.trans s₃).ownsAccount a (ho db₁ hs h)
  · rw [Db.creditTransferOpen_iff] at hc
    exact Db.creditTransferOpen_iff.2 (hc.trans_le (s₃.openSum _))
  · show ¬ 0 < db₅.creditFunded ctx a
    rw [s₄.creditFunded a]
    exact hu hn

/-- When a transfer request takes the ledger lock, the account it names is linked to its investor,
if the results are to rest on that. -/
def OwnedAtLock (S : Setting) : Prop :=
  ∀ ctx body l db, S.sched (.requestTransfer ctx body) l db → S.own →
    ∀ a, (body.source = .account a ∨ body.target = .account a) → db.ownsAccount ctx a

theorem ok_ownedGate (h : ∀ db n, S.Ok q p H ws db n) : S.Ok q (ownedGate ctx a p) H ws db n := by
  intro db₁ n₁ _
  exact ok_ite (fun _ => h db₁ n₁) fun _ db₂ n₂ _ =>
    ok_unless fun _ => trivial

theorem ok_requestTransfer (ho : S.OwnedAtLock) :
    S.Ok (.requestTransfer ctx body) (requestTransfer S.hashtext ctx body) ∅ [] db n := by
  refine ok_requireMpin (ok_attempt fun amount _ => ok_attempt fun _ _ => ?_)
  split
  · split_ifs with h
    · trivial
    · exact ok_moveInstant
  · rename_i w a hs ht
    exact ok_ownedGate fun db₁ n₁ => ok_moveIn fun db₂ hsch hown =>
      ho ctx body _ db₂ hsch hown a (.inr ht)
  · rename_i a w hs ht
    exact ok_ownedGate fun db₁ n₁ => ok_moveOut fun db₂ hsch hown =>
      ho ctx body _ db₂ hsch hown a (.inl hs)
  · trivial

theorem ok_cancelTransfer : S.Ok q (cancelTransfer ctx id) H ws db n := by
  intro db₁ n₁ _
  dsimp only
  split
  · trivial
  · refine ok_unless fun _ => ok_unless fun hc => ?_
    refine ok_updateRowAuto fun db₂ m hh => ⟨?_, .moveTransfer _ _ (by simp)⟩
    obtain ⟨t, hf, -, hs⟩ := Db.transferIs_iff.1 hh
    exact ⟨rfl, t, hf, by rw [hs]; exact not_not.1 hc, by simp⟩

theorem ok_creditRecheck {t : Transfer} (hl : ledgerLock S.hashtext t.who ∈ H)
    (h : ∀ db' n', Later t.who db db' → S.Ok q p H [] db' n') :
    S.Ok q (creditRecheck t p) H [] db n := by
  unfold creditRecheck
  split
  · intro db₁ n₁ h₁
    exact ok_unlessRollback fun _ => h db₁ n₁ (interf_later hl h₁)
  · exact h db n (Later.refl _ db)

theorem ok_transferNow {k : Transfer → Prog}
    (h : ∀ t db db' n H, ledgerLock S.hashtext t.who ∈ H → db.transfers.find id = some t →
      Grow db db' → t.status.canTransition new → S.Ok q (k t) H [] db' n) :
    S.Ok q (transferNow S.hashtext org id new note k) ∅ [] db n := by
  refine ok_attempt fun _ _ db₁ n₁ _ => ?_
  dsimp only
  split
  · trivial
  · rename_i t ht
    refine ok_unless fun _ => ok_unless fun hc => ?_
    exact ok_lockInvestorLedger fun db₂ n₂ _ hl hg _ => h t db₁ db₂ n₂ _ hl ht hg (not_not.1 hc)

/-- A decision that does not settle. -/
theorem ok_moveTransfer (who : Investor)
    (hl : ledgerLock S.hashtext who ∈ H) (hc : st.canTransition new) (hnew : new ≠ .done) :
    S.Ok q (updateRow (fun db => db.transferIs id org st) (.transferStatus id new) (.transferRow id)
      (.commit (.done .ok)) (rollback 409 decidedByOther)) H [] db n := by
  refine ok_updateRow hl (fun db₁ _ hh m => ?_) (fun db₁ n₁ _ _ hleg => ?_) fun _ _ _ _ => trivial
  · obtain ⟨t, hf, -, hs⟩ := Db.transferIs_iff.1 hh
    exact ⟨.inr rfl, t, hf, by rw [hs]; exact hc, fun h => absurd h hnew⟩
  · exact ok_commit (.inl hl) hleg fun _ _ _ _ => .moveTransfer _ _ hnew

theorem ok_decideTransfer {body : Decision} :
    S.Ok q (decideTransfer S.hashtext org id body) ∅ [] db n := by
  unfold decideTransfer
  split
  · exact ok_transferNow fun t _ db₁ n₁ _ hl _ _ hc =>
      ok_creditRecheck hl fun db₂ n₂ _ => ok_moveTransfer t.who hl hc (by simp)
  · exact ok_transferNow fun t _ db₁ n₁ _ hl _ _ hc => ok_moveTransfer t.who hl hc (by simp)
  · refine ok_transferNow fun t db₀ db₁ n₁ _ hl ht hg hc => ok_creditRecheck hl fun db₂ n₂ hl₂ => ?_
    -- the row at any later time differs in its status only
    have hrow : ∀ db', Later t.who db₂ db' → ∃ t', db'.transfers.find id = some t' ∧
        t'.who = t.who ∧ t'.ends = t.ends ∧ t'.amount = t.amount := by
      intro db' hlater
      obtain ⟨t', hf', he, -⟩ := (hg.trans (hl₂.trans hlater).grow).transfers id t ht
      exact ⟨t', hf', by rw [he], by rw [he], by rw [he]⟩
    refine ok_updateRow hl (fun db₃ hl₃ hh m => ?_) (fun db₃ n₃ hl₃ _ hleg₃ => ?_)
      (fun _ _ _ _ _ _ _ => ok_unlessRollback fun _ => trivial)
    · rw [Bool.and_eq_true] at hh
      obtain ⟨t₁, hf, -, hs⟩ := Db.transferIs_iff.1 hh.1
      obtain ⟨t₂, hf₂, hw, -⟩ := hrow db₃ hl₃
      obtain rfl : t₁ = t₂ := Option.some.inj (hf.symm.trans hf₂)
      exact ⟨.inr rfl, t₁, hf, by rw [hs]; exact hc, fun _ => by rw [hw]; exact .inl hl⟩
    refine ok_settleEnds (.inl hl) hleg₃ (fun db₄ m H₄ x hx hleg₄ => ?_)
      fun db₄ m H₄ es hH₄ hl₄ hp hleg₄ => ?_
    · obtain ⟨⟨-, t₁, hf, hc₁, -⟩, -⟩ := hleg₄
      refine hx.not_settled ?_
      rintro ⟨t₂, hf₂, hs⟩
      obtain rfl : t₁ = t₂ := Option.some.inj (hf.symm.trans hf₂)
      exact TransferStatus.ne_done_of_next hc₁ hs
    · refine ok_commit (hH₄ (.inl hl)) hleg₄ fun db₅ k hl₅ _ => ?_
      obtain ⟨t', hf', hw, he, ha⟩ := hrow db₅ (hl₃.trans (hl₄.trans hl₅))
      refine .doneTransfer id t' es hf' ?_
      rw [hp, Transfer.legs, hw, he, ha, show t'.id = id from (Table.find_eq_some hf').2]
  · trivial

/-! ### Accounts, bonuses, adjustments -/

theorem ownsAccount_iff {db : Db} : db.ownsAccount who a = true ↔
    ∃ r, db.accounts.find a = some r ∧ r.org = who.org ∧ r.investor = some who.user := by
  unfold Db.ownsAccount
  cases db.accounts.find a <;> simp

theorem ok_linkAccount {mt5Only : Bool} :
    S.Ok q (linkAccount who a mt5Only (.commit (.done .ok))) ∅ [] db n := by
  intro db₁ n₁ _
  refine ok_ite (fun _ db₂ n₂ _ => ⟨.refl, trivial⟩) fun _ db₂ n₂ _ => ?_
  dsimp only
  split
  · trivial
  · refine ok_unlessRollback fun _ => ok_unlessRollback fun _ =>
      ok_unlessRollback fun _ db₃ n₃ _ db₄ n₄ _ => ok_unlessRollback fun _ => ?_
    intro db₅ n₅ _
    cases hf : db₅.accounts.find a with
    | none => simp [view_nil, hf, rollback, Safe]
    | some r =>
      by_cases hr : r.org = who.org ∧ r.investor = none
      · -- the free row is locked until the commit
        simp only [view_nil, hf, hr.1, hr.2, decide_true, Bool.and_self, if_true]
        intro db₆ n₆ h₆
        have hrow : db₆.accounts.find a = some r :=
          ((interf_agree h₆).accounts a (.inr (by simp))).trans hf
        refine ⟨.single ⟨[.owner a (some who.user)], ⟨⟨.inr (by simp), r, hrow, ?_⟩, trivial⟩,
          .linkAccount a who.user r hrow hr.2, rfl⟩, trivial⟩
        intro u hu
        rw [hr.2] at hu
        simp at hu
      · have hfree : (decide (r.org = who.org) && decide (r.investor = none)) = false := by
          simpa using hr
        simp [view_nil, hf, hfree, rollback, Safe]

theorem ok_unlinkInvestorAccount : S.Ok q (unlinkInvestorAccount S.hashtext who a) ∅ [] db n := by
  refine ok_requireInvestor fun db₁ n₁ => ok_lockInvestorLedger fun db₂ n₂ _ hl _ _ db₃ n₃ _ => ?_
  refine ok_unlessRollback fun _ db₄ n₄ _ => ok_unlessRollback fun hx => ?_
  refine ok_updateRow hl (fun db₅ _ hh m => ?_) (fun db₅ n₅ hl₅ ho hleg => ?_) fun _ _ _ _ => trivial
  · obtain ⟨r, hf, horg, hi⟩ := ownsAccount_iff.1 hh
    refine ⟨.inr rfl, r, hf, fun u hu => .inl ?_⟩
    obtain rfl : who.user = u := Option.some.inj (hi.symm.trans hu)
    rw [horg]
    exact hl
  · refine ok_commit (.inl hl) hleg fun db₆ k hl₆ _ => .unlinkAccount who a ?_ fun hn => hx ?_
    · exact hl₆.steady.ownsAccount a ho
    · rw [Db.openTransferNames_iff] at hn
      exact Db.openTransferNames_iff.2 (hn.trans_le ((hl₅.trans hl₆).steady.openSum _))

theorem ok_grantBonus {body : GrantBody} : S.Ok q (grantBonus S.hashtext who body) ∅ [] db n := by
  refine ok_requireMpin (ok_requireInvestor fun db₁ n₁ => ok_attempt fun amount _ =>
    ok_attempt fun _ _ => ok_lockInvestorLedger fun db₂ n₂ _ hl _ _ => ?_)
  refine ok_ite (fun hneg => ?_) fun hpos => ?_
  · refine ok_walletAvailable hl fun db₃ n₃ avail _ hav => ok_unlessRollback fun hlt => ?_
    refine ok_payBonus hl trivial base_nil fun _ db₄ hl₄ => ?_
    have := hl₄.steady.available .credit
    rw [view_nil]
    omega
  · exact ok_payBonus hl trivial base_nil fun hneg => absurd hneg hpos

theorem ok_awardRuleBonus {kyc : Bool} : S.Ok q (awardRuleBonus S.hashtext who kyc) ∅ [] db n := by
  refine ok_lockInvestorLedger fun db₁ n₁ _ hl _ _ db₂ n₂ _ => ?_
  refine ok_payBonus hl trivial base_nil fun hneg => absurd hneg (not_lt.2 ?_)
  refine BonusRules.pays_nonneg _ _ fun b hb => ?_
  cases kyc <;> simp at hb

theorem ok_postAdjustment {body : AdjustmentBody} :
    S.Ok q (postAdjustment S.hashtext who body) ∅ [] db n := by
  refine ok_requireMpin (ok_requireInvestor fun db₁ n₁ => ?_)
  split
  · trivial
  · refine ok_attempt fun amount _ => ok_attempt fun _ _ => ok_lockInvestorLedger fun db₂ n₂ _ hl _ _ => ?_
    refine ok_insert hl (by trivial) (fun db₃ m _ _ hb => ?_) fun db₃ m H₃ hH _ _ hleg => ?_
    · exact ⟨Nat.lt_succ_self _, .inr (by simp), find_fresh hb.entries, .inl hl⟩
    · exact ok_commit (hH hl) hleg fun _ _ _ _ => .postAdjustment _ rfl rfl

theorem route_ok (ho : S.OwnedAtLock) : S.Ok q (route S.hashtext q) ∅ [] db n := by
  cases q with
  | fileDeposit ctx body => exact ok_fileDeposit
  | cancelDeposit ctx id => exact ok_cancelDeposit
  | decideDeposit org id body => exact ok_decideDeposit
  | requestWithdrawal ctx body => exact ok_requestWithdrawal
  | cancelWithdrawal ctx id => exact ok_cancelWithdrawal
  | decideWithdrawal org id body => exact ok_decideWithdrawal
  | markWithdrawalPaid org id txid => exact ok_markWithdrawalPaid
  | requestTransfer ctx body => exact ok_requestTransfer ho
  | cancelTransfer ctx id => exact ok_cancelTransfer
  | decideTransfer org id body => exact ok_decideTransfer
  | linkInvestorAccount who a => exact ok_requireInvestor fun _ _ => ok_linkAccount
  | unlinkInvestorAccount who a => exact ok_unlinkInvestorAccount
  | grantBonus who body => exact ok_grantBonus
  | awardRuleBonus who kyc => exact ok_awardRuleBonus
  | postAdjustment who body => exact ok_postAdjustment
  | configure c =>
    intro db₁ n₁ _
    exact ⟨.single ⟨[.config c], ⟨trivial, trivial⟩, .configure c, rfl⟩, trivial⟩

end Setting

/-! ### Runs of the portal -/

/-- Runs of any number of sessions that make any requests, along schedules in `sched`. -/
abbrev PortalRun (hashtext : String → ℤ) (sched : Request → Lock → Db → Prop) : Sys → Sys → Prop :=
  Run Db.put (route hashtext) (fun _ => True) sched

/-- The portal before its first request: no money rows, any accounts and settings. -/
def emptyLedger (accounts : Table Account) (config : Config) : Sys :=
  .init ⟨.empty, .empty, .empty, .empty, .empty, accounts, config⟩ 0

theorem emptyLedger_exact (accounts : Table Account) (config : Config) :
    Exact (emptyLedger accounts config).db :=
  ⟨rfl, by simp [emptyLedger, ReadCommitted.Sys.init]⟩

section Runs

variable {S : Setting} {accounts : Table Account} {config : Config} {P : Db → Prop} {s : Sys}

theorem routesSafe (ho : S.OwnedAtLock) :
    RoutesSafe Db.put S.spec S.sched (route S.hashtext) fun _ => True :=
  fun _ _ _ _ _ => Setting.route_ok ho

theorem below_empty : Below 0 (emptyLedger accounts config).db := by
  constructor <;> simp [emptyLedger, ReadCommitted.Sys.init]

theorem emptyLedger_inv : S.spec.I 0 (emptyLedger accounts config).db :=
  ⟨below_empty, emptyLedger_exact accounts config⟩

/-- **The induction rule of the portal.**  What holds of the empty ledger and is kept by every
committed action holds of the committed state of every run. -/
theorem run_induction (ho : S.OwnedAtLock)
    (h0 : P (emptyLedger accounts config).db)
    (hstep : ∀ n H db ws, Exact db → P db → LegalAll S.hashtext n H db ws →
      Kind S.own db ws → P (view ws db))
    (h : PortalRun S.hashtext S.sched (emptyLedger accounts config) s) : P s.db ∧ Exact s.db := by
  obtain ⟨-, -, hr⟩ := reach_safe (routesSafe ho) emptyLedger_inv h
  generalize s.db = d at hr ⊢
  induction hr with
  | refl => exact ⟨h0, emptyLedger_exact accounts config⟩
  | tail _ ha ih =>
    obtain ⟨n, H, hc⟩ := ha
    induction hc with
    | refl => exact ih
    | tail _ hk ih' =>
      obtain ⟨ws, hl, hk, rfl⟩ := hk
      exact ⟨hstep n H _ ws ih'.2 ih'.1 hl hk, ih'.2.keeps hl hk⟩

/-- The same from a state already reached. -/
theorem run_induction_from (ho : S.OwnedAtLock) {s' : Sys}
    (h : PortalRun S.hashtext S.sched (emptyLedger accounts config) s) (h0 : P s.db)
    (hstep : ∀ n H db ws, P db → LegalAll S.hashtext n H db ws → Kind S.own db ws → P (view ws db))
    (h' : PortalRun S.hashtext S.sched s s') : P s'.db := by
  induction h' with
  | refl => exact h0
  | @tail s₁ s₂ hr hs ih =>
    rcases step_act (routesSafe ho) emptyLedger_inv (h.trans hr) hs with he | ⟨n, H, hc⟩
    · exact he ▸ ih
    · generalize s₂.db = d at hc ⊢
      induction hc with
      | refl => exact ih
      | tail _ hk ih' =>
        obtain ⟨ws, hl, hk, rfl⟩ := hk
        exact hstep n H _ ws ih' hl hk

/-- A run only adds rows and moves statuses along their tables. -/
theorem run_grow (ho : S.OwnedAtLock) {s' : Sys}
    (h : PortalRun S.hashtext S.sched (emptyLedger accounts config) s)
    (h' : PortalRun S.hashtext S.sched s s') : Grow s.db s'.db :=
  run_induction_from ho h (.refl s.db) (fun _ _ _ _ hg hl _ =>
    hg.trans (hl.keeps Grow.refl (fun _ _ _ => Grow.trans) fun _ _ hw => hw.grow)) h'

end Runs

/-! ### A small portal to run -/

/-- Every user is an investor, every payout destination belongs to investor `⟨1, 1⟩` and is approved,
nothing costs a fee and no bonus rule is on. -/
def sampleConfig : Config where
  method _ := none
  destination _ := some ⟨⟨1, 1⟩, .approved⟩
  settings _ := ⟨0, 0, 5⟩
  rules _ := .off
  investor _ _ := true
  file _ _ := false
  attached _ := false

/-- A positive adjustment of the main wallet of `⟨1, 1⟩`, in cents. -/
def sampleDeposit (cents : ℕ) : Request :=
  .postAdjustment ⟨1, 1⟩ ⟨none, some .main, .signed false cents, "opening balance"⟩

/-- One slave account, linked to investor `⟨1, 1⟩`. -/
def sampleAccounts : Table Account := Table.empty.insert ⟨5, 1, .slave, true, some 1⟩

/-- A request for a move of `units` out of account 5, whose equity reads 100.00. -/
def sampleMoveOut (units : ℕ) : Request :=
  .requestTransfer ⟨1, 1⟩ ⟨none, .num units, .account 5, .wallet .main, some 100, true, false⟩

/-- The scheduler serves one request of session `i` to its end in `k` statements. -/
def serve (i : ℕ) (q : Request) (k : ℕ) : List (Action Request) :=
  .start i q :: List.replicate k (.run i)

/-- The runs of a small portal, by their scheduler choices; `chk` may refuse to take a lock. -/
def sampleRun (chk : Request → Lock → Db → Bool) (accounts : Table Account)
    (as : List (Action Request)) : Option Sys :=
  fireAll Db.put (route fun _ => 0) chk as (emptyLedger accounts sampleConfig)

/-- What a sample run computes is what some run of the portal reaches. -/
theorem exists_of_sampleRun {sched : Request → Lock → Db → Prop} (chk : Request → Lock → Db → Bool)
    (hc : ∀ q l db, chk q l db = true → sched q l db) (accounts : Table Account)
    (as : List (Action Request)) [DecidablePred P]
    (h : ((sampleRun chk accounts as).any fun s => decide (P s)) = true) :
    ∃ s, PortalRun (fun _ => 0) sched (emptyLedger accounts sampleConfig) s ∧ P s := by
  cases hs : sampleRun chk accounts as with
  | none => simp [hs] at h
  | some s =>
    rw [hs] at h
    exact ⟨s, run_of_fireAll _ _ _ chk as hc hs, by simpa using h⟩

/-- Every schedule. -/
def anyTime (_ : Request) (_ : Lock) (_ : Db) : Prop := True

/-- The setting of the unconditional results: any schedule, nothing assumed of accounts. -/
def anySchedule (hashtext : String → ℤ) : Setting := ⟨hashtext, False, anyTime⟩

theorem anySchedule_owned (hashtext : String → ℤ) : (anySchedule hashtext).OwnedAtLock :=
  fun _ _ _ _ _ h => h.elim

theorem exists_of_anyRun (accounts : Table Account) (as : List (Action Request)) [DecidablePred P]
    (h : ((sampleRun (fun _ _ _ => true) accounts as).any fun s => decide (P s)) = true) :
    ∃ s, PortalRun (fun _ => 0) anyTime (emptyLedger accounts sampleConfig) s ∧ P s :=
  exists_of_sampleRun _ (fun _ _ _ _ => trivial) accounts as h

end Portal
