import CopyTrading.Portal.Actions

/-!
# Portal.Postings — the committed actions, and the ledger they leave

`Kind db ws`: the writes `ws` are one of the portal's committed actions, with the checks that hold
when they commit.  A request in its settled status has postings `due`; `Exact` says that the
referenced entries of the ledger are those postings, each once, and every action keeps it.
-/

namespace Portal

open List Table

/-- A referenced ledger row without its id. -/
structure Posting where
  who : Investor
  wallet : Wallet
  amount : ℤ
  kind : EntryKind
  ref : RefTable × ℕ
  deriving DecidableEq

/-- The posting of an entry; an adjustment has none. -/
def WalletEntry.posting (e : WalletEntry) : Option Posting :=
  e.ref.map fun r => ⟨e.who, e.wallet, e.amount, e.kind, r⟩

/-- One `(main, +credited_amount)` row once confirmed. -/
def Deposit.due (d : Deposit) : List Posting :=
  if d.status = .confirmed then [⟨d.who, .main, d.credited.getD 0, .deposit, (.deposits, d.id)⟩]
  else []

/-- One `(main, -amount)` row once paid. -/
def Withdrawal.due (r : Withdrawal) : List Posting :=
  if r.status = .paid then [⟨r.who, .main, -r.amount.1, .withdrawal, (.withdrawals, r.id)⟩] else []

/-- The rows of the ends that are wallets. -/
def Ends.legs (ends : Ends) (who : Investor) (amount : Amount) (id : ℕ) : List Posting :=
  (ends.sourceWallet.map fun w => ⟨who, w, -amount.1, .transfer, (.transfers, id)⟩).toList ++
  (ends.targetWallet.map fun w => ⟨who, w, amount.1, .transfer, (.transfers, id)⟩).toList

def Transfer.legs (t : Transfer) : List Posting := t.ends.legs t.who t.amount t.id

/-- The legs, once done. -/
def Transfer.due (t : Transfer) : List Posting := if t.status = .done then t.legs else []

/-- One `(credit, +amount)` row. -/
def Bonus.due (b : Bonus) : List Posting := [⟨b.who, .credit, b.amount, .bonus, (.bonuses, b.id)⟩]

/-- The postings of the ledger. -/
def Db.posted (db : Db) : Multiset Posting := db.entries.sum fun e => (e.posting.toList : Multiset _)

/-- The postings that the requests are due. -/
def Db.due (db : Db) : Multiset Posting :=
  db.deposits.sum (fun d => (d.due : Multiset _)) + db.withdrawals.sum (fun r => (r.due : Multiset _)) +
  db.transfers.sum (fun t => (t.due : Multiset _)) + db.bonuses.sum (fun b => (b.due : Multiset _))

/-- The ledger is a function of the requests, adjustments apart. -/
structure Exact (db : Db) : Prop where
  posted : db.posted = db.due
  plain : ∀ e ∈ db.entries.rows, e.ref = none → e.kind = .adjustment

/-! ### The committed actions -/

/-- The committed actions.  `own`: a requested transfer's account is linked to its investor when the
request commits. -/
inductive Kind (own : Prop) (db : Db) : List Write → Prop
  | fileDeposit (d : Deposit) (hs : d.status = .pending) : Kind own db [.deposit d]
  | closeDeposit (id : ℕ) (st : DepositStatus) (cr : Option ℤ) (hst : st ≠ .confirmed) :
      Kind own db [.depositStatus id st cr]
  | confirmDeposit (id : ℕ) (d : Deposit) (credited : Amount) (e : WalletEntry)
      (hd : db.deposits.find id = some d)
      (he : e.posting = some ⟨d.who, .main, credited.1, .deposit, (.deposits, id)⟩) :
      Kind own db [.depositStatus id .confirmed (some credited.1), .entry e]
  | fundDeposit (id : ℕ) (d : Deposit) (credited : Amount) (e : WalletEntry) (tid a : ℕ)
      (hd : db.deposits.find id = some d)
      (he : e.posting = some ⟨d.who, .main, credited.1, .deposit, (.deposits, id)⟩)
      (ho : db.ownsAccount d.who a) :
      Kind own db [.depositStatus id .confirmed (some credited.1), .entry e,
        .transfer ⟨tid, d.who, .walletToAccount .main (some a), credited, .approved, none, false⟩]
  | requestWithdrawal (r : Withdrawal) (hs : r.status = .requested)
      (ha : r.amount.1 ≤ db.available r.who .main) : Kind own db [.withdrawal r]
  | moveWithdrawal (id : ℕ) (st : WithdrawalStatus) (hst : st ≠ .paid) :
      Kind own db [.withdrawalStatus id st]
  | payWithdrawal (id : ℕ) (r : Withdrawal) (e : WalletEntry) (hr : db.withdrawals.find id = some r)
      (he : e.posting = some ⟨r.who, .main, -r.amount.1, .withdrawal, (.withdrawals, id)⟩) :
      Kind own db [.withdrawalStatus id .paid, .entry e]
  | moveInstant (t : Transfer) (s w : Wallet) (ne : s ≠ w) (es : List WalletEntry)
      (he : t.ends = .walletToWallet s w ne) (hs : t.status = .done)
      (ha : t.amount.1 ≤ db.available t.who s) (hp : es.map WalletEntry.posting = t.legs.map some) :
      Kind own db (.transfer t :: es.map .entry)
  | moveIn (t : Transfer) (w : Wallet) (a : ℕ) (he : t.ends = .walletToAccount w (some a))
      (hs : t.status = .requested) (ha : t.amount.1 ≤ db.available t.who w)
      (hx : w = .credit → ¬ 0 < db.openAccountTransfersOut t.who a)
      (ho : own → db.ownsAccount t.who a) : Kind own db [.transfer t]
  | moveOut (t : Transfer) (a : ℕ) (w : Wallet) (equity : Option ℚ)
      (he : t.ends = .accountToWallet (some a) w) (hs : t.status = .requested)
      (hq : t.equityAtRequest = equity.map roundCents)
      (hx : ¬ db.creditTransferOpen t.who a)
      (hm : ∀ q, equity = some q → t.amount.1 ≤ db.movable t.who a q)
      (hu : equity = none → ¬ 0 < db.creditFunded t.who a)
      (ho : own → db.ownsAccount t.who a) : Kind own db [.transfer t]
  | moveTransfer (id : ℕ) (st : TransferStatus) (hst : st ≠ .done) :
      Kind own db [.transferStatus id st]
  | doneTransfer (id : ℕ) (t : Transfer) (es : List WalletEntry) (ht : db.transfers.find id = some t)
      (hp : es.map WalletEntry.posting = t.legs.map some) :
      Kind own db (.transferStatus id .done :: es.map .entry)
  | payBonus (b : Bonus) (e : WalletEntry)
      (he : e.posting = some ⟨b.who, .credit, b.amount, .bonus, (.bonuses, b.id)⟩)
      (ha : b.amount < 0 → -b.amount ≤ db.available b.who .credit) :
      Kind own db [.bonus b, .entry e]
  | postAdjustment (e : WalletEntry) (hr : e.ref = none) (hk : e.kind = .adjustment) :
      Kind own db [.entry e]
  | linkAccount (a u : ℕ) (r : Account) (hr : db.accounts.find a = some r) (hi : r.investor = none) :
      Kind own db [.owner a (some u)]
  | unlinkAccount (who : Investor) (a : ℕ) (ho : db.ownsAccount who a)
      (hx : ¬ db.openTransferNames who a) : Kind own db [.owner a none]
  | configure (c : Config) : Kind own db [.config c]

/-! ### Posting entries -/

theorem view_entries (es : List WalletEntry) (db : Db) :
    view (es.map .entry) db = { db with entries := es.foldl Table.insert db.entries } := by
  induction es generalizing db with
  | nil => rfl
  | cons e es ih => rw [map_cons, view_cons, ih]; rfl

section Post

variable {hashtext : String → ℤ} {n : ℕ} {H : Set Lock} {db : Db} {es : List WalletEntry}
  {ps : List Posting} {e : WalletEntry} {id : ℕ} {d : Deposit} {t : Transfer}

/-- Posted entries enter a sum over the ledger. -/
theorem sum_view_entries {M : Type} [AddCommMonoid M] (g : WalletEntry → M)
    (h : LegalAll hashtext n H db (es.map .entry)) :
    (view (es.map .entry) db).entries.sum g = (es.map g).sum + db.entries.sum g := by
  induction es generalizing db with
  | nil => simp
  | cons e es ih =>
    rw [map_cons] at h
    rw [map_cons, view_cons, ih h.2, Db.put, sum_insert g h.1.2.2.1, map_cons,
      sum_cons]
    abel

theorem mem_view_entries {a : WalletEntry}
    (h : a ∈ (view (es.map .entry) db).entries.rows) : a ∈ es ∨ a ∈ db.entries.rows := by
  induction es generalizing db with
  | nil => exact .inr h
  | cons e es ih =>
    rw [map_cons, view_cons] at h
    rcases ih h with h | h
    · exact .inl (mem_cons_of_mem _ h)
    · rcases mem_of_mem_insert h with rfl | h
      · exact .inl mem_cons_self
      · exact .inr h

/-- The postings of entries written for `ps` are `ps`. -/
theorem sum_posting (h : es.map WalletEntry.posting = ps.map some) :
    (es.map fun e => (e.posting.toList : Multiset Posting)).sum = ps := by
  induction es generalizing ps with
  | nil =>
    obtain rfl : ps = [] := by simpa using h.symm
    rfl
  | cons e es ih =>
    cases ps with
    | nil => simp at h
    | cons p ps =>
      simp only [map_cons, cons.injEq] at h
      rw [map_cons, sum_cons, ih h.2, h.1]
      rfl

theorem ref_of_posting (h : es.map WalletEntry.posting = ps.map some) (he : e ∈ es) :
    e.ref ≠ none := by
  intro hr
  have : e.posting ∈ ps.map some := h ▸ mem_map_of_mem he
  simp [WalletEntry.posting, hr] at this

/-- Entries posted for `ps` on a state `d` whose requests have become due `ps`. -/
theorem Exact.post (h : Exact db) (d : Db) (he : d.entries = db.entries)
    (hl : LegalAll hashtext n H d (es.map .entry)) (hp : es.map WalletEntry.posting = ps.map some)
    (hd : d.due = ps + db.due) : Exact (view (es.map .entry) d) := by
  constructor
  · have hdue : (view (es.map .entry) d).due = d.due := by rw [view_entries]; rfl
    unfold Db.posted
    rw [sum_view_entries _ hl, sum_posting hp, hdue, hd, he]
    exact congrArg _ h.posted
  · intro a ha hr
    rcases mem_view_entries ha with ha | ha
    · exact absurd hr (ref_of_posting hp ha)
    · exact h.plain a (he ▸ ha) hr

theorem Exact.postOne (h : Exact db) (d : Db) (he : d.entries = db.entries)
    {p : Posting} (hl : LegalAll hashtext n H d [.entry e]) (hp : e.posting = some p)
    (hd : d.due = [p] + db.due) : Exact (view [.entry e] d) := by
  have hmap : [e].map WalletEntry.posting = [p].map some := by simp [hp]
  exact h.post d he hl hmap hd

/-! ### Every action keeps the ledger exact -/

theorem DepositStatus.pending_of_next {x y : DepositStatus} (h : x.canTransition y) :
    x = .pending := by
  cases x <;> cases y <;> revert h <;> decide

theorem WithdrawalStatus.ne_paid_of_next {x y : WithdrawalStatus} (h : x.canTransition y) :
    x ≠ .paid := by
  rintro rfl
  cases y <;> revert h <;> decide

/-- The deposit part of `due` when a status moves: a row that can still move is due nothing. -/
theorem due_depositStatus {st : DepositStatus} {cr : Option ℤ} (hd : db.deposits.find id = some d)
    (hc : d.status.canTransition st) : (Db.put (.depositStatus id st cr) db).due =
      ({ d with status := st, credited := cr } : Deposit).due + db.due := by
  have h0 : (d.due : Multiset Posting) = 0 := by
    rw [Deposit.due, DepositStatus.pending_of_next hc]
    rfl
  simp only [Db.due, Db.put, sum_modify_zero (g := fun d => (d.due : Multiset Posting)) hd h0]
  abel

theorem due_withdrawalStatus {st : WithdrawalStatus} {r : Withdrawal}
    (hr : db.withdrawals.find id = some r) (hc : r.status.canTransition st) :
    (Db.put (.withdrawalStatus id st) db).due =
      ({ r with status := st } : Withdrawal).due + db.due := by
  have h0 : (r.due : Multiset Posting) = 0 := congrArg _ (if_neg (WithdrawalStatus.ne_paid_of_next hc))
  simp only [Db.due, Db.put, sum_modify_zero (g := fun r => (r.due : Multiset Posting)) hr h0]
  abel

theorem due_transferStatus {st : TransferStatus} (ht : db.transfers.find id = some t)
    (hc : t.status.canTransition st) : (Db.put (.transferStatus id st) db).due =
      ({ t with status := st } : Transfer).due + db.due := by
  have h0 : (t.due : Multiset Posting) = 0 := congrArg _ (if_neg (TransferStatus.ne_done_of_next hc))
  simp only [Db.due, Db.put, sum_modify_zero (g := fun t => (t.due : Multiset Posting)) ht h0]
  abel

theorem due_transfer (h : db.transfers.find t.id = none) :
    (Db.put (.transfer t) db).due = t.due + db.due := by
  simp only [Db.due, Db.put, sum_insert (fun t => (t.due : Multiset Posting)) h]
  abel

theorem due_bonus {b : Bonus} (h : db.bonuses.find b.id = none) :
    (Db.put (.bonus b) db).due = b.due + db.due := by
  simp only [Db.due, Db.put, sum_insert (fun b => (b.due : Multiset Posting)) h]
  abel

/-- A write that neither posts nor makes a request due. -/
theorem Exact.same {db' : Db} (h : Exact db) (he : db'.entries = db.entries)
    (hd : db'.due = db.due) : Exact db' :=
  ⟨by rw [hd, Db.posted, he]; exact h.posted, by rw [he]; exact h.plain⟩

theorem Exact.confirm {credited : Amount} (h : Exact db)
    (hd : db.deposits.find id = some d) (hc : d.status.canTransition .confirmed)
    (he : e.posting = some ⟨d.who, .main, credited.1, .deposit, (.deposits, id)⟩)
    (hl : LegalAll hashtext n H (Db.put (.depositStatus id .confirmed (some credited.1)) db)
      [.entry e]) :
    Exact (view [.depositStatus id .confirmed (some credited.1), .entry e] db) := by
  refine h.postOne (Db.put (.depositStatus id .confirmed (some credited.1)) db) rfl hl he ?_
  rw [due_depositStatus hd hc]
  simp [Deposit.due, (find_eq_some hd).2.symm]

theorem Exact.keeps {own : Prop} {ws : List Write} (h : Exact db)
    (hl : LegalAll hashtext n H db ws) (hk : Kind own db ws) : Exact (view ws db) := by
  cases hk with
  | fileDeposit d hs =>
    refine h.same rfl ?_
    have hdue : d.due = [] := by simp [Deposit.due, hs]
    simp [Db.due, sum_insert (fun d => (d.due : Multiset Posting)) hl.1.2.2, hdue]
  | closeDeposit id st cr hst =>
    obtain ⟨⟨-, d, hd, hc⟩, -⟩ := hl
    exact h.same rfl ((due_depositStatus hd hc).trans (by simp [Deposit.due, hst]))
  | confirmDeposit id d credited e hd he =>
    obtain ⟨⟨-, d', hd', hc⟩, hl⟩ := hl
    obtain rfl : d = d' := Option.some.inj (hd.symm.trans hd')
    exact h.confirm hd hc he hl
  | fundDeposit id d credited e tid a hd he ho =>
    obtain ⟨⟨-, d', hd', hc⟩, he', ht, -⟩ := hl
    obtain rfl : d = d' := Option.some.inj (hd.symm.trans hd')
    have hx := h.confirm hd hc he ⟨he', trivial⟩
    exact hx.same rfl ((due_transfer ht.2.2.1).trans (by simp [Transfer.due]))
  | requestWithdrawal r hs ha =>
    refine h.same rfl ?_
    have hdue : r.due = [] := by simp [Withdrawal.due, hs]
    simp [Db.due, sum_insert (fun r => (r.due : Multiset Posting)) hl.1.2.2.1, hdue]
  | moveWithdrawal id st hst =>
    obtain ⟨⟨-, r, hr, hc⟩, -⟩ := hl
    exact h.same rfl ((due_withdrawalStatus hr hc).trans (by simp [Withdrawal.due, hst]))
  | payWithdrawal id r e hr he =>
    obtain ⟨⟨-, r', hr', hc⟩, hl⟩ := hl
    obtain rfl : r = r' := Option.some.inj (hr.symm.trans hr')
    refine h.postOne (Db.put (.withdrawalStatus id .paid) db) rfl hl he ?_
    rw [due_withdrawalStatus hr hc]
    simp [Withdrawal.due, (find_eq_some hr).2.symm]
  | moveInstant t s w ne es he hs ha hp =>
    refine h.post (Db.put (.transfer t) db) rfl hl.2 hp ?_
    rw [due_transfer hl.1.2.2.1, Transfer.due, if_pos hs]
  | moveIn t w a he hs ha hx ho | moveOut t a w equity he hs hq hx hm hu ho =>
    refine h.same rfl ((due_transfer hl.1.2.2.1).trans ?_)
    simp [Transfer.due, hs]
  | moveTransfer id st hst =>
    obtain ⟨⟨-, t, ht, hc, -⟩, -⟩ := hl
    exact h.same rfl ((due_transferStatus ht hc).trans (by simp [Transfer.due, hst]))
  | doneTransfer id t es ht hp =>
    obtain ⟨⟨-, t', ht', hc, -⟩, hl⟩ := hl
    obtain rfl : t = t' := Option.some.inj (ht.symm.trans ht')
    refine h.post (Db.put (.transferStatus id .done) db) rfl hl hp ?_
    rw [due_transferStatus ht hc, Transfer.due, if_pos rfl]
    rfl
  | payBonus b e he ha =>
    refine h.postOne (Db.put (.bonus b) db) rfl hl.2 he ?_
    exact due_bonus hl.1.2.2
  | postAdjustment e hr hk =>
    constructor
    · have hp : e.posting = none := by simp [WalletEntry.posting, hr]
      have := sum_insert (fun e => (e.posting.toList : Multiset Posting)) hl.1.2.2.1
      simpa [Db.posted, Db.due, hp, this] using h.posted
    · intro a ha hra
      rcases mem_of_mem_insert ha with rfl | ha
      · exact hk
      · exact h.plain a ha hra
  | linkAccount a u r hr hi | unlinkAccount who a ho hx | configure c => exact h.same rfl rfl

end Post

/-! ### A request that is not settled has no row -/

section Settled

variable {db : Db} {ref : RefTable × ℕ} {w : Wallet} {p : Posting} {id : ℕ}

/-- A row outside `settled` stays outside when an entry for another wallet is written. -/
theorem settled_entry {e : WalletEntry} (he : e.wallet ≠ w)
    (h : db.settled ref w = false) : (Db.put (.entry e) db).settled ref w = false := by
  rw [Bool.eq_false_iff] at h ⊢
  intro hs
  obtain ⟨a, ha, hr⟩ := any_eq_true.1 hs
  rcases mem_of_mem_insert ha with rfl | ha
  · simp only [Bool.and_eq_true, decide_eq_true_eq] at hr
    exact he hr.2
  · exact h (any_eq_true.2 ⟨a, ha, hr⟩)

theorem mem_legs {t : Transfer} (h : p ∈ t.legs) : p.ref = (.transfers, t.id) := by
  rcases mem_append.1 h with h | h
  · obtain ⟨w, -, rfl⟩ := by simpa using h
    rfl
  · obtain ⟨w, -, rfl⟩ := by simpa using h
    rfl

/-- The request that is referred to is in its settled status. -/
def Db.Settles (db : Db) : RefTable × ℕ → Prop
  | (.deposits, id) => ∃ d, db.deposits.find id = some d ∧ d.status = .confirmed
  | (.withdrawals, id) => ∃ r, db.withdrawals.find id = some r ∧ r.status = .paid
  | (.transfers, id) => ∃ t, db.transfers.find id = some t ∧ t.status = .done
  | (.bonuses, id) => ∃ b, db.bonuses.find id = some b

/-- A posting that is due names a row in its settled status. -/
theorem mem_due (h : p ∈ db.due) : db.Settles p.ref := by
  simp only [Db.due, Multiset.mem_add, mem_sum, Multiset.mem_coe] at h
  rcases h with ((⟨d, hd, hp⟩ | ⟨r, hr, hp⟩) | ⟨t, ht, hp⟩) | ⟨b, hb, hp⟩
  · unfold Deposit.due at hp
    split_ifs at hp with hs
    · obtain rfl := mem_singleton.1 hp
      exact ⟨d, find_of_mem hd, hs⟩
    · simp at hp
  · unfold Withdrawal.due at hp
    split_ifs at hp with hs
    · obtain rfl := mem_singleton.1 hp
      exact ⟨r, find_of_mem hr, hs⟩
    · simp at hp
  · unfold Transfer.due at hp
    split_ifs at hp with hs
    · rw [mem_legs hp]
      exact ⟨t, find_of_mem ht, hs⟩
    · simp at hp
  · obtain rfl := mem_singleton.1 hp
    exact ⟨b, find_of_mem hb⟩

theorem Exact.not_settled (h : Exact db) (hne : ¬ db.Settles ref) : db.settled ref w = false := by
  rw [Bool.eq_false_iff]
  intro hs
  obtain ⟨e, he, hr⟩ := any_eq_true.1 hs
  simp only [Bool.and_eq_true, decide_eq_true_eq] at hr
  have hp : e.posting = some ⟨e.who, e.wallet, e.amount, e.kind, ref⟩ := by
    simp [WalletEntry.posting, hr.1]
  refine hne (mem_due (p := ⟨e.who, e.wallet, e.amount, e.kind, ref⟩) ?_)
  rw [← h.posted]
  exact mem_sum.2 ⟨e, he, by simp [hp]⟩

end Settled

/-! ### Ids below the counter -/

/-- Every row id was given out by the counter. -/
structure Below (n : ℕ) (db : Db) : Prop where
  entries : ∀ r ∈ db.entries.rows, r.id < n
  deposits : ∀ r ∈ db.deposits.rows, r.id < n
  withdrawals : ∀ r ∈ db.withdrawals.rows, r.id < n
  transfers : ∀ r ∈ db.transfers.rows, r.id < n
  bonuses : ∀ r ∈ db.bonuses.rows, r.id < n

section Below

variable {hashtext : String → ℤ} {n n' : ℕ} {H : Set Lock} {db : Db} {α : Type}

theorem Below.mono (hn : n ≤ n') (h : Below n db) : Below n' db where
  entries r hr := (h.entries r hr).trans_le hn
  deposits r hr := (h.deposits r hr).trans_le hn
  withdrawals r hr := (h.withdrawals r hr).trans_le hn
  transfers r hr := (h.transfers r hr).trans_le hn
  bonuses r hr := (h.bonuses r hr).trans_le hn

theorem find_fresh [Keyed α ℕ] {t : Table α} (h : ∀ r ∈ t.rows, Keyed.key r < n) :
    t.find n = none :=
  find_eq_none.2 fun r hr => (h r hr).ne

theorem forall_mem_insert [Keyed α ℕ] {t : Table α} {r : α} {P : α → Prop} (hr : P r)
    (h : ∀ a ∈ t.rows, P a) : ∀ a ∈ (t.insert r).rows, P a := by
  intro a ha
  rcases mem_of_mem_insert ha with rfl | ha
  · exact hr
  · exact h a ha

theorem forall_mem_modify [Keyed α ℕ] {t : Table α} {k : ℕ} {f : α → α}
    (p : ∀ r, Keyed.key (f r) = Keyed.key r) (h : ∀ a ∈ t.rows, Keyed.key a < n) :
    ∀ a ∈ (t.modify k f p).rows, Keyed.key a < n := by
  intro a ha
  obtain ⟨b, hb, rfl⟩ := mem_map.1 ha
  split_ifs
  · rw [p]
    exact h b hb
  · exact h b hb

theorem Write.Legal.below {w : Write} (h : w.Legal hashtext n H db) (hb : Below n db) :
    Below n (Db.put w db) := by
  cases w with
  | entry e => exact { hb with entries := forall_mem_insert h.1 hb.entries }
  | deposit d => exact { hb with deposits := forall_mem_insert h.1 hb.deposits }
  | depositStatus id st cr => exact { hb with deposits := forall_mem_modify (by intro _; rfl) hb.deposits }
  | withdrawal r => exact { hb with withdrawals := forall_mem_insert h.1 hb.withdrawals }
  | withdrawalStatus id st => exact { hb with withdrawals := forall_mem_modify (by intro _; rfl) hb.withdrawals }
  | transfer t => exact { hb with transfers := forall_mem_insert h.1 hb.transfers }
  | transferStatus id st => exact { hb with transfers := forall_mem_modify (by intro _; rfl) hb.transfers }
  | bonus b => exact { hb with bonuses := forall_mem_insert h.1 hb.bonuses }
  | owner a u | config c => exact { hb with }

theorem LegalAll.below {ws : List Write} (h : LegalAll hashtext n H db ws) (hb : Below n db) :
    Below n (view ws db) :=
  h.keeps (P := fun a b => Below n a → Below n b) (fun _ => id) (fun _ _ _ h₁ h₂ h => h₂ (h₁ h))
    (fun _ _ hw => hw.below) hb

end Below

end Portal
