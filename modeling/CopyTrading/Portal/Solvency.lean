import CopyTrading.Portal.RoutesSafe

/-!
# Portal.Solvency — no wallet is ever overdrawn

Every committed action keeps `available` nonnegative on every wallet, unless a negative adjustment
is posted: a request is capped by the figure at its commit, settling moves a hold into an entry, and
a status flip outside the ledger lock only releases a hold.
-/

namespace Portal

open List Option

/-- What a posting adds to a wallet. -/
def Posting.on (v : Investor) (x : Wallet) (p : Posting) : ℤ :=
  if p.who = v ∧ p.wallet = x then p.amount else 0

/-- What a transfer holds on a wallet. -/
def Transfer.holdOn (v : Investor) (x : Wallet) (t : Transfer) : ℤ :=
  if t.who = v ∧ t.status.isOpen ∧ t.ends.sourceWallet = some x then t.amount.1 else 0

/-- What a withdrawal holds on a wallet. -/
def Withdrawal.holdOn (v : Investor) (x : Wallet) (r : Withdrawal) : ℤ :=
  if r.who = v ∧ r.status.isOpen ∧ x = .main then r.amount.1 else 0

section Effects

variable {hashtext : String → ℤ} {n : ℕ} {H : Set Lock} {db : Db} (v : Investor) (x : Wallet)
  {es : List WalletEntry} {ps : List Posting} {t : Transfer} {r : Withdrawal}

theorem sum_on (hp : es.map WalletEntry.posting = ps.map some) :
    (es.map fun e => if e.who = v ∧ e.wallet = x then e.amount else 0).sum =
      (ps.map (Posting.on v x)).sum := by
  induction es generalizing ps with
  | nil =>
    obtain rfl : ps = [] := by simpa using hp.symm
    rfl
  | cons e es ih =>
    cases ps with
    | nil => simp at hp
    | cons p ps =>
      simp only [map_cons, cons.injEq] at hp
      obtain ⟨r, -, rfl⟩ := map_eq_some_iff.1 hp.1
      rw [map_cons, sum_cons, ih hp.2]
      rfl

/-- Posted entries move the balances by their postings and leave the holds. -/
theorem available_entries (hl : LegalAll hashtext n H db (es.map .entry))
    (hp : es.map WalletEntry.posting = ps.map some) : (view (es.map .entry) db).available v x =
      (ps.map (Posting.on v x)).sum + db.available v x := by
  have hb : (view (es.map .entry) db).balance v x =
      (ps.map (Posting.on v x)).sum + db.balance v x := by
    unfold Db.balance
    rw [sum_view_entries _ hl, sum_on v x hp]
  have hw : (view (es.map .entry) db).withdrawalHold v x = db.withdrawalHold v x := by
    rw [view_entries]; rfl
  have ht : (view (es.map .entry) db).transferHold v x = db.transferHold v x := by
    rw [view_entries]; rfl
  unfold Db.available
  omega

theorem available_entry {e : WalletEntry} {p : Posting} (hl : LegalAll hashtext n H db [.entry e])
    (hp : e.posting = some p) :
    (view [.entry e] db).available v x = p.on v x + db.available v x := by
  have hmap : [e].map WalletEntry.posting = [p].map some := by simp [hp]
  have := available_entries v x hl hmap
  simpa using this

theorem transferHold_eq : db.transferHold v x = db.transfers.sum (Transfer.holdOn v x) := by
  unfold Db.transferHold Db.openSum
  congr 1
  funext t
  simp [Transfer.holdOn]

theorem available_transfer (h : db.transfers.find t.id = none) :
    (Db.put (.transfer t) db).available v x = db.available v x - t.holdOn v x := by
  have hsum : (Db.put (.transfer t) db).transferHold v x = t.holdOn v x + db.transferHold v x := by
    rw [transferHold_eq, transferHold_eq]
    exact Table.sum_insert _ h
  have hb : (Db.put (.transfer t) db).balance v x = db.balance v x := rfl
  have hw : (Db.put (.transfer t) db).withdrawalHold v x = db.withdrawalHold v x := rfl
  unfold Db.available
  omega

theorem available_withdrawal (h : db.withdrawals.find r.id = none) :
    (Db.put (.withdrawal r) db).available v x = db.available v x - r.holdOn v x := by
  have hsum : (Db.put (.withdrawal r) db).withdrawalHold v x =
      r.holdOn v x + db.withdrawalHold v x := Table.sum_insert _ h
  have hb : (Db.put (.withdrawal r) db).balance v x = db.balance v x := rfl
  have ht : (Db.put (.withdrawal r) db).transferHold v x = db.transferHold v x := rfl
  unfold Db.available
  omega

/-- A transfer that closes releases what it held. -/
theorem available_transferStatus {id : ℕ} (st : TransferStatus)
    (ht : db.transfers.find id = some t) (hst : ¬ st.isOpen) :
    (Db.put (.transferStatus id st) db).available v x = db.available v x + t.holdOn v x := by
  have h₁ : (Db.put (.transferStatus id st) db).transferHold v x + t.holdOn v x =
      db.transferHold v x := by
    rw [transferHold_eq, transferHold_eq]
    exact Table.sum_modify_to_zero (p := by intro; rfl) ht (if_neg fun hc => hst hc.2.1)
  have hb : (Db.put (.transferStatus id st) db).balance v x = db.balance v x := rfl
  have hw : (Db.put (.transferStatus id st) db).withdrawalHold v x = db.withdrawalHold v x := rfl
  unfold Db.available
  omega

/-- A withdrawal that closes releases what it held. -/
theorem available_withdrawalStatus {id : ℕ} (st : WithdrawalStatus)
    (hr : db.withdrawals.find id = some r) (hst : ¬ st.isOpen) :
    (Db.put (.withdrawalStatus id st) db).available v x = db.available v x + r.holdOn v x := by
  have h₁ : (Db.put (.withdrawalStatus id st) db).withdrawalHold v x + r.holdOn v x =
      db.withdrawalHold v x :=
    Table.sum_modify_to_zero (p := by intro; rfl) hr (if_neg fun hc => hst hc.2.1)
  have hb : (Db.put (.withdrawalStatus id st) db).balance v x = db.balance v x := rfl
  have ht : (Db.put (.withdrawalStatus id st) db).transferHold v x = db.transferHold v x := rfl
  unfold Db.available
  omega

/-- The legs of a transfer: minus on the source wallet, plus on the target wallet. -/
theorem legs_on (t : Transfer) : (t.legs.map (Posting.on v x)).sum =
      (if t.who = v ∧ t.ends.targetWallet = some x then t.amount.1 else 0) -
      (if t.who = v ∧ t.ends.sourceWallet = some x then t.amount.1 else 0) := by
  unfold Transfer.legs Ends.legs
  cases t.ends with
  | walletToWallet s w ne =>
    simp only [Ends.sourceWallet, Ends.targetWallet, map_some, toList_some,
      singleton_append, map_cons, map_nil, sum_cons, sum_nil, Posting.on,
      some.injEq]
    split_ifs <;> omega
  | walletToAccount s a =>
    simp only [Ends.sourceWallet, Ends.targetWallet, map_some, map_none,
      toList_some, toList_none, append_nil, map_cons, map_nil,
      sum_cons, sum_nil, Posting.on, some.injEq, reduceCtorEq, and_false, if_false]
    split_ifs <;> omega
  | accountToWallet a w =>
    simp only [Ends.sourceWallet, Ends.targetWallet, map_some, map_none,
      toList_some, toList_none, nil_append, map_cons, map_nil,
      sum_cons, sum_nil, Posting.on, some.injEq, reduceCtorEq, and_false, if_false]
    split_ifs <;> omega

end Effects

/-- No negative adjustment has been posted. -/
def NoNegativeAdjustment (db : Db) : Prop :=
  ∀ e ∈ db.entries.rows, e.kind = .adjustment → 0 ≤ e.amount

instance (db : Db) : Decidable (NoNegativeAdjustment db) :=
  inferInstanceAs (Decidable (∀ e ∈ db.entries.rows, e.kind = .adjustment → 0 ≤ e.amount))

/-- Balance less holds is nonnegative on every wallet of every investor. -/
def Solvent (db : Db) : Prop := ∀ v x, 0 ≤ db.available v x

theorem WithdrawalStatus.approved_of_paid {x : WithdrawalStatus} (h : x.canTransition .paid) :
    x = .approved := by
  cases x <;> revert h <;> decide

theorem TransferStatus.isOpen_of_done {x : TransferStatus} (h : x.canTransition .done) :
    x.isOpen := by
  cases x <;> revert h <;> decide

section Step

variable {hashtext : String → ℤ} {n : ℕ} {H : Set Lock} {db : Db} {own : Prop} {ws : List Write}

theorem NoNegativeAdjustment.before (hl : LegalAll hashtext n H db ws)
    (h : NoNegativeAdjustment (view ws db)) : NoNegativeAdjustment db := by
  intro e he hk
  have hg : Grow db (view ws db) :=
    hl.keeps Grow.refl (fun _ _ _ => Grow.trans) fun _ _ hw => hw.grow
  exact h e (Table.find_eq_some (hg.entries e.id e (Table.find_of_mem he))).1 hk

/-- **One committed action** keeps every wallet solvent. -/
theorem Solvent.keeps (h : Solvent db) (hl : LegalAll hashtext n H db ws) (hk : Kind own db ws)
    (hn : NoNegativeAdjustment (view ws db)) : Solvent (view ws db) := by
  intro v x
  have hv := h v x
  cases hk with
  | fileDeposit d hs | closeDeposit id st cr hst | linkAccount a u r hr hi
  | unlinkAccount who a ho hx | configure c => exact hv
  | confirmDeposit id d credited e hd he =>
    have hav := available_entry v x hl.2 he
    have hpos := credited.2
    rw [view_cons, hav]
    show 0 ≤ Posting.on v x _ + db.available v x
    simp only [Posting.on]
    split_ifs <;> omega
  | fundDeposit id d credited e tid a hd he ho =>
    -- the credit and the hold of the funding transfer cancel
    have hav := available_entry v x (e := e) ⟨hl.2.1, trivial⟩ he
    have ht := available_transfer v x hl.2.2.1.2.2.1
    rw [view_cons, view_cons, view_cons, view_nil, ht]
    rw [view_cons, view_nil] at hav
    rw [hav]
    show 0 ≤ Posting.on v x _ + db.available v x - Transfer.holdOn v x _
    simp only [Posting.on, Transfer.holdOn, Ends.sourceWallet, TransferStatus.isOpen, true_and,
      some.injEq]
    split_ifs <;> omega
  | requestWithdrawal r hs ha =>
    rw [view_cons, view_nil, available_withdrawal v x hl.1.2.2.1, Withdrawal.holdOn]
    split_ifs with hc
    · obtain ⟨rfl, -, rfl⟩ := hc
      omega
    · omega
  | moveWithdrawal id st hst =>
    obtain ⟨⟨-, r, hr, hc⟩, -⟩ := hl
    exact hv.trans ((Steady.withdrawalStatus hr hc).available x)
  | payWithdrawal id r e hr he =>
    -- the hold of the approved withdrawal becomes its debit
    obtain ⟨⟨-, r', hr', hc⟩, hl⟩ := hl
    obtain rfl : r = r' := some.inj (hr.symm.trans hr')
    have hav := available_entry v x hl he
    have hst := available_withdrawalStatus v x .paid hr (by decide)
    have ho : r.status.isOpen := by rw [WithdrawalStatus.approved_of_paid hc]; decide
    rw [view_cons, hav, hst]
    simp only [Posting.on, Withdrawal.holdOn, ho, true_and]
    by_cases hm : r.who = v ∧ x = .main
    · rw [if_pos hm, if_pos ⟨hm.1, hm.2.symm⟩]
      omega
    · rw [if_neg hm, if_neg fun hm' => hm ⟨hm'.1, hm'.2.symm⟩]
      omega
  | moveInstant t s w ne es he hs ha hp =>
    have hav := available_entries v x hl.2 hp
    have ht := available_transfer v x hl.1.2.2.1
    rw [view_cons, hav, ht, legs_on]
    simp only [Transfer.holdOn, hs, he, TransferStatus.isOpen, Ends.sourceWallet, Ends.targetWallet,
      some.injEq, Bool.false_eq_true, false_and, and_false, if_false]
    have hpos := t.amount.2
    split_ifs with h₁ h₂ h₂
    · omega
    · omega
    · obtain ⟨rfl, rfl⟩ := h₂
      omega
    · omega
  | moveIn t w a he hs ha hx ho =>
    rw [view_cons, view_nil, available_transfer v x hl.1.2.2.1, Transfer.holdOn, he]
    split_ifs with hc
    · obtain ⟨rfl, -, hw⟩ := hc
      cases hw
      omega
    · omega
  | moveOut t a w equity he hs hq hx hm hu ho =>
    rw [view_cons, view_nil, available_transfer v x hl.1.2.2.1, Transfer.holdOn, he]
    simpa [Ends.sourceWallet] using hv
  | moveTransfer id st hst =>
    obtain ⟨⟨-, t, ht, hc, -⟩, -⟩ := hl
    exact hv.trans ((Steady.status ht hc fun hd => absurd hd hst).available x)
  | doneTransfer id t es ht hp =>
    -- the hold of the open transfer becomes its debit
    obtain ⟨⟨-, t', ht', hc, -⟩, hl⟩ := hl
    obtain rfl : t = t' := some.inj (ht.symm.trans ht')
    have hav := available_entries v x hl hp
    have hst := available_transferStatus v x .done ht (by decide)
    rw [view_cons, hav, hst, legs_on]
    have hpos := t.amount.2
    simp only [Transfer.holdOn, TransferStatus.isOpen_of_done hc, true_and]
    split_ifs <;> omega
  | payBonus b e he ha =>
    have hav := available_entry v x hl.2 he
    rw [view_cons, hav]
    show 0 ≤ Posting.on v x _ + db.available v x
    simp only [Posting.on]
    split_ifs with hc
    · obtain ⟨rfl, rfl⟩ := hc
      by_cases hneg : b.amount < 0
      · have := ha hneg
        omega
      · omega
    · omega
  | postAdjustment e hr hk =>
    have hpos : 0 ≤ e.amount :=
      hn e ((Table.mem_insert hl.1.2.2.1).2 (.inl rfl)) hk
    have hb : (view [.entry e] db).balance v x =
        (if e.who = v ∧ e.wallet = x then e.amount else 0) + db.balance v x :=
      Table.sum_insert _ hl.1.2.2.1
    have hw : (view [.entry e] db).withdrawalHold v x = db.withdrawalHold v x := rfl
    have ht : (view [.entry e] db).transferHold v x = db.transferHold v x := rfl
    unfold Db.available at hv ⊢
    split_ifs at hb <;> omega

end Step

/-- **Wallet solvency.**  In every committed state of every interleaving of any number of requests,
as long as no negative adjustment has been posted, every wallet covers its holds. -/
theorem wallet_solvency (hashtext : String → ℤ) (accounts : Table Account) (config : Config) (s : Sys)
    (h : PortalRun hashtext anyTime (emptyLedger accounts config) s)
    (hn : NoNegativeAdjustment s.db) (v : Investor) (x : Wallet) :
    0 ≤ s.db.balance v x - s.db.withdrawalHold v x - s.db.transferHold v x ∧
      0 ≤ s.db.balance v x := by
  have hs : (NoNegativeAdjustment s.db → Solvent s.db) ∧ Exact s.db :=
    run_induction (S := anySchedule hashtext) (anySchedule_owned hashtext)
      (P := fun db => NoNegativeAdjustment db → Solvent db)
      (fun _ _ _ => le_rfl)
      (fun n H db ws _ hP hl hk hn => (hP (hn.before hl)).keeps hl hk hn) h
  have hav : 0 ≤ s.db.available v x := hs.1 hn v x
  have hw : 0 ≤ s.db.withdrawalHold v x := Db.withdrawalHold_nonneg
  have ht : 0 ≤ s.db.transferHold v x := Db.openSum_nonneg
  unfold Db.available at hav
  constructor <;> omega

/-- A funded wallet with an open withdrawal. -/
theorem wallet_solvency_sample :
    ∃ s, PortalRun (fun _ => 0) anyTime (emptyLedger .empty sampleConfig) s ∧
      s.db.withdrawalHold ⟨1, 1⟩ .main = 4000 ∧
      0 ≤ s.db.balance ⟨1, 1⟩ .main - s.db.withdrawalHold ⟨1, 1⟩ .main -
        s.db.transferHold ⟨1, 1⟩ .main ∧ 0 ≤ s.db.balance ⟨1, 1⟩ .main := by
  obtain ⟨s, hs, hn, hw⟩ := exists_of_anyRun .empty
    (serve 0 (sampleDeposit 10000) 4 ++
      serve 1 (.requestWithdrawal ⟨1, 1⟩ ⟨none, .num 40, 7, false⟩) 8)
    (P := fun s => NoNegativeAdjustment s.db ∧ s.db.withdrawalHold ⟨1, 1⟩ .main = 4000)
    (by decide +kernel)
  exact ⟨s, hs, hw, wallet_solvency _ _ _ s hs hn _ _⟩

end Portal
