import CopyTrading.Portal.Routes

/-!
# Portal.Actions — what a money route may commit

The abstract portal: a committed transaction is a list of row writes, each under the lock of its row
and with a legal status move (`Write.Legal`).  Two facts about other sessions follow from the locks
alone and carry every route through its interleavings:

* `Agree`: a row whose lock a session holds stays as it is;
* `Steady`: while a session holds an investor's ledger lock, the investor's balances stay, open
  requests only close and accounts stay linked.
-/

namespace Portal

open Relation Table

/-! ### Figures of a committed state -/

namespace Db

variable (db : Db) (who : Investor) {P : Ends → Bool} {a : ℕ}

/-- The sum of a wallet's entries. -/
def balance (w : Wallet) : ℤ :=
  db.entries.sum fun e => if e.who = who ∧ e.wallet = w then e.amount else 0

/-- What open withdrawals hold on a wallet. -/
def withdrawalHold (w : Wallet) : ℤ :=
  db.withdrawals.sum fun r => if r.who = who ∧ r.status.isOpen ∧ w = .main then r.amount.1 else 0

/-- The sum of the investor's open transfers between ends that satisfy `P`. -/
def openSum (P : Ends → Bool) : ℤ :=
  db.transfers.sum fun t => if t.who = who ∧ t.status.isOpen ∧ P t.ends then t.amount.1 else 0

/-- What open transfers hold on a wallet. -/
def transferHold (w : Wallet) : ℤ := db.openSum who fun e => e.sourceWallet = some w

/-- Balance less holds. -/
def available (w : Wallet) : ℤ := db.balance who w - db.withdrawalHold who w - db.transferHold who w

/-- What may still move from the account to a wallet (`account_movable` in one state). -/
def movable (a : ℕ) (equity : ℚ) : ℤ :=
  max (floorCents (equity - toDecimal (db.openAccountTransfersOut who a) -
    toDecimal (db.creditFunded who a))) 0

variable {db who}

theorem openSum_pos : 0 < db.openSum who P ↔
      ∃ t ∈ db.transfers.rows, t.who = who ∧ t.status.isOpen ∧ P t.ends := by
  constructor
  · intro h
    obtain ⟨t, ht, hp⟩ := exists_of_sum_pos h
    split_ifs at hp with hc
    · exact ⟨t, ht, hc⟩
    · exact absurd hp (lt_irrefl _)
  · rintro ⟨t, ht, hc⟩
    have hle := le_sum_of_mem (t := db.transfers)
      (g := fun t => if t.who = who ∧ t.status.isOpen ∧ P t.ends then t.amount.1 else 0)
      (fun r _ => by split_ifs; exacts [r.amount.2.le, le_rfl]) ht
    rw [if_pos hc] at hle
    exact lt_of_lt_of_le t.amount.2 hle

theorem openSum_nonneg : 0 ≤ db.openSum who P :=
  sum_nonneg fun r _ => by split_ifs; exacts [r.amount.2.le, le_rfl]

theorem withdrawalHold_nonneg {w : Wallet} : 0 ≤ db.withdrawalHold who w :=
  sum_nonneg fun r _ => by split_ifs; exacts [r.amount.2.le, le_rfl]

theorem creditTransferOpen_iff : db.creditTransferOpen who a = true ↔
      0 < db.openSum who fun e => e = .walletToAccount .credit (some a) := by
  simp [creditTransferOpen, openSum_pos, and_assoc]

theorem openTransferNames_iff : db.openTransferNames who a = true ↔
      0 < db.openSum who fun e => e.sourceAccount = some a || e.targetAccount = some a := by
  simp [openTransferNames, openSum_pos, and_assoc]

theorem openAccountTransfersOut_eq :
    db.openAccountTransfersOut who a = db.openSum who fun e => e.sourceAccount = some a := by
  unfold openAccountTransfersOut openSum
  congr 1
  funext t
  by_cases h : t.who = who ∧ t.ends.sourceAccount = some a ∧ t.status.isOpen
  · rw [if_pos h, if_pos ⟨h.1, h.2.2, by simpa using h.2.1⟩]
  · rw [if_neg h, if_neg fun h' => h ⟨h'.1, by simpa using h'.2.2, h'.2.1⟩]

end Db

/-- What the three `SELECT`s of `wallet_figures` add up to. -/
theorem walletBalances_eq (db : Db) (who : Investor) (w : Wallet) :
    db.walletBalances who w = db.balance who w := by
  unfold Db.walletBalances Db.balance sum
  rw [balance_eq, List.map_map]
  induction db.entries.rows with
  | nil => rfl
  | cons e l ih =>
    by_cases h : e.who = who <;> simp [h, ih]

theorem holds_open_eq (db₂ db₃ : Db) (who : Investor) (w : Wallet) :
    holds (db₂.openWithdrawals who) (db₃.openTransfers who) w =
      db₂.withdrawalHold who w + db₃.transferHold who w := by
  rw [holds_eq]
  congr 1
  · unfold Db.openWithdrawals Db.withdrawalHold sum
    induction db₂.withdrawals.rows with
    | nil => simp
    | cons r l ih =>
      by_cases h : r.who = who ∧ r.status.isOpen
      · by_cases hw : w = .main <;> simp_all
      · by_cases hw : w = .main <;> simp_all
  · unfold Db.openTransfers Db.transferHold Db.openSum sum
    induction db₃.transfers.rows with
    | nil => simp
    | cons t l ih =>
      by_cases h : t.who = who ∧ t.status.isOpen
      · cases hs : t.ends.sourceWallet <;> simp_all
      · simp_all

/-! ### Legal writes -/

section Legal

variable (hashtext : String → ℤ) (n : ℕ) (H : Set Lock) {db : Db} {ws : List Write} {H' : Set Lock}

/-- A row write of a committed transaction that held the locks `H`: the row's lock is held, an
inserted row is new with an id below the counter, a status moves along its transition table, and
whatever can lower an investor's figures is under that investor's ledger lock. -/
def Write.Legal (db : Db) : Write → Prop
  | .entry e => e.id < n ∧ .entryRow e.id ∈ H ∧ db.entries.find e.id = none ∧
      ledgerLock hashtext e.who ∈ H
  | .deposit d => d.id < n ∧ .depositRow d.id ∈ H ∧ db.deposits.find d.id = none
  | .depositStatus id st _ => .depositRow id ∈ H ∧
      ∃ d, db.deposits.find id = some d ∧ d.status.canTransition st
  | .withdrawal r => r.id < n ∧ .withdrawalRow r.id ∈ H ∧ db.withdrawals.find r.id = none ∧
      ledgerLock hashtext r.who ∈ H
  | .withdrawalStatus id st => .withdrawalRow id ∈ H ∧
      ∃ r, db.withdrawals.find id = some r ∧ r.status.canTransition st
  | .transfer t => t.id < n ∧ .transferRow t.id ∈ H ∧ db.transfers.find t.id = none ∧
      ledgerLock hashtext t.who ∈ H
  | .transferStatus id st => .transferRow id ∈ H ∧
      ∃ t, db.transfers.find id = some t ∧ t.status.canTransition st ∧
        (st = .done → ledgerLock hashtext t.who ∈ H)
  | .bonus b => b.id < n ∧ .bonusRow b.id ∈ H ∧ db.bonuses.find b.id = none
  | .owner a _ => .accountRow a ∈ H ∧
      ∃ r, db.accounts.find a = some r ∧
        ∀ u, r.investor = some u → ledgerLock hashtext ⟨r.org, u⟩ ∈ H
  | .config _ => True

/-- A transaction whose writes are legal one after the other. -/
def LegalAll : Db → List Write → Prop
  | _, [] => True
  | db, w :: ws => w.Legal hashtext n H db ∧ LegalAll (Db.put w db) ws

variable {hashtext n H}

theorem LegalAll.snoc {w : Write} (h : LegalAll hashtext n H db ws)
    (hw : w.Legal hashtext n H (view ws db)) : LegalAll hashtext n H db (ws ++ [w]) := by
  induction ws generalizing db with
  | nil => exact ⟨hw, trivial⟩
  | cons v ws ih => exact ⟨h.1, ih h.2 hw⟩

theorem LegalAll.append {vs : List Write} : LegalAll hashtext n H db (ws ++ vs) ↔
      LegalAll hashtext n H db ws ∧ LegalAll hashtext n H (view ws db) vs := by
  induction ws generalizing db with
  | nil => simp [LegalAll]
  | cons v ws ih => simp [LegalAll, ih, and_assoc]

theorem Write.Legal.mono {w : Write} {n' : ℕ} (hn : n ≤ n') (hH : H ⊆ H')
    (h : w.Legal hashtext n H db) : w.Legal hashtext n' H' db := by
  cases w with
  | entry e | withdrawal r | transfer t => exact ⟨h.1.trans_le hn, hH h.2.1, h.2.2.1, hH h.2.2.2⟩
  | deposit d | bonus b => exact ⟨h.1.trans_le hn, hH h.2.1, h.2.2⟩
  | depositStatus id st cr | withdrawalStatus id st => exact ⟨hH h.1, h.2⟩
  | transferStatus id st =>
    obtain ⟨hr, t, ht, hc, hd⟩ := h
    exact ⟨hH hr, t, ht, hc, fun e => hH (hd e)⟩
  | owner a u =>
    obtain ⟨hr, r, hf, hl⟩ := h
    exact ⟨hH hr, r, hf, fun v hv => hH (hl v hv)⟩
  | config c => trivial

theorem LegalAll.mono {n' : ℕ} (hn : n ≤ n') (hH : H ⊆ H')
    (h : LegalAll hashtext n H db ws) : LegalAll hashtext n' H' db ws := by
  induction ws generalizing db with
  | nil => trivial
  | cons w ws ih => exact ⟨h.1.mono hn hH, ih h.2⟩

/-- What each single write keeps is kept by a legal transaction. -/
theorem LegalAll.keeps {P : Db → Db → Prop} (hr : ∀ db, P db db)
    (ht : ∀ a b c, P a b → P b c → P a c)
    (h1 : ∀ db w, w.Legal hashtext n H db → P db (Db.put w db))
    (h : LegalAll hashtext n H db ws) : P db (view ws db) := by
  induction ws generalizing db with
  | nil => exact hr db
  | cons w ws ih => exact ht _ _ _ (h1 db w h.1) (ih h.2)

end Legal

/-! ### Locked rows -/

/-- The two states have the same rows wherever `H` holds the row's lock. -/
structure Agree (H : Set Lock) (db db' : Db) : Prop where
  entries : ∀ id, .entryRow id ∈ H → db'.entries.find id = db.entries.find id
  deposits : ∀ id, .depositRow id ∈ H → db'.deposits.find id = db.deposits.find id
  withdrawals : ∀ id, .withdrawalRow id ∈ H → db'.withdrawals.find id = db.withdrawals.find id
  transfers : ∀ id, .transferRow id ∈ H → db'.transfers.find id = db.transfers.find id
  bonuses : ∀ id, .bonusRow id ∈ H → db'.bonuses.find id = db.bonuses.find id
  accounts : ∀ id, .accountRow id ∈ H → db'.accounts.find id = db.accounts.find id

section Agree

variable {hashtext : String → ℤ} {n : ℕ} {H H' : Set Lock} {db db' : Db}

theorem Agree.refl (H : Set Lock) (db : Db) : Agree H db db :=
  ⟨fun _ _ => rfl, fun _ _ => rfl, fun _ _ => rfl, fun _ _ => rfl, fun _ _ => rfl, fun _ _ => rfl⟩

theorem Agree.trans {a b c : Db} (h : Agree H a b) (h' : Agree H b c) : Agree H a c where
  entries id hl := (h'.entries id hl).trans (h.entries id hl)
  deposits id hl := (h'.deposits id hl).trans (h.deposits id hl)
  withdrawals id hl := (h'.withdrawals id hl).trans (h.withdrawals id hl)
  transfers id hl := (h'.transfers id hl).trans (h.transfers id hl)
  bonuses id hl := (h'.bonuses id hl).trans (h.bonuses id hl)
  accounts id hl := (h'.accounts id hl).trans (h.accounts id hl)

/-- A session's own write is a function of the rows it has locked. -/
theorem Agree.put (h : Agree H db db') (w : Write) : Agree H (Db.put w db) (Db.put w db') := by
  cases w with
  | entry e => exact { h with entries := fun id hl => by simp [find_insert, h.entries id hl] }
  | deposit d =>
    exact { h with deposits := fun id hl => by simp [find_insert, h.deposits id hl] }
  | depositStatus i st cr =>
    exact { h with deposits := fun id hl => by simp [find_modify, h.deposits id hl] }
  | withdrawal r =>
    exact { h with withdrawals := fun id hl => by simp [find_insert, h.withdrawals id hl] }
  | withdrawalStatus i st =>
    exact { h with withdrawals := fun id hl => by simp [find_modify, h.withdrawals id hl] }
  | transfer t =>
    exact { h with transfers := fun id hl => by simp [find_insert, h.transfers id hl] }
  | transferStatus i st =>
    exact { h with transfers := fun id hl => by simp [find_modify, h.transfers id hl] }
  | bonus b => exact { h with bonuses := fun id hl => by simp [find_insert, h.bonuses id hl] }
  | owner a u =>
    exact { h with accounts := fun id hl => by simp [find_modify, h.accounts id hl] }
  | config c => exact { h with }

/-- A write of a session with other locks leaves the rows locked by `H`. -/
theorem Write.Legal.agree {w : Write} (h : w.Legal hashtext n H' db)
    (hd : Disjoint H H') : Agree H db (Db.put w db) := by
  have hne : ∀ {row : ℕ → Lock} {i id : ℕ}, row i ∈ H' → row id ∈ H → i ≠ id := by
    rintro row i _ hi hl rfl
    exact Set.disjoint_left.1 hd hl hi
  have hr := Agree.refl H db
  cases w with
  | entry e => exact { hr with entries := fun id hl => find_insert_ne (hne h.2.1 hl) }
  | deposit d => exact { hr with deposits := fun id hl => find_insert_ne (hne h.2.1 hl) }
  | depositStatus i st cr =>
    exact { hr with deposits := fun id hl => find_modify_ne (p := by intro; rfl) (hne h.1 hl) }
  | withdrawal r => exact { hr with withdrawals := fun id hl => find_insert_ne (hne h.2.1 hl) }
  | withdrawalStatus i st =>
    exact { hr with withdrawals := fun id hl => find_modify_ne (p := by intro; rfl) (hne h.1 hl) }
  | transfer t => exact { hr with transfers := fun id hl => find_insert_ne (hne h.2.1 hl) }
  | transferStatus i st =>
    exact { hr with transfers := fun id hl => find_modify_ne (p := by intro; rfl) (hne h.1 hl) }
  | bonus b => exact { hr with bonuses := fun id hl => find_insert_ne (hne h.2.1 hl) }
  | owner i u => exact { hr with accounts := fun id hl => find_modify_ne (p := by intro; rfl) (hne h.1 hl) }
  | config c => exact { hr with }

/-- Whether a write is legal depends on locked rows only. -/
theorem Write.Legal.of_agree {w : Write} (h : w.Legal hashtext n H db)
    (ha : Agree H db db') : w.Legal hashtext n H db' := by
  cases w with
  | entry e => exact ⟨h.1, h.2.1, by rw [ha.entries _ h.2.1]; exact h.2.2.1, h.2.2.2⟩
  | deposit d => exact ⟨h.1, h.2.1, by rw [ha.deposits _ h.2.1]; exact h.2.2⟩
  | depositStatus id st cr => exact ⟨h.1, by rw [ha.deposits _ h.1]; exact h.2⟩
  | withdrawal r => exact ⟨h.1, h.2.1, by rw [ha.withdrawals _ h.2.1]; exact h.2.2.1, h.2.2.2⟩
  | withdrawalStatus id st => exact ⟨h.1, by rw [ha.withdrawals _ h.1]; exact h.2⟩
  | transfer t => exact ⟨h.1, h.2.1, by rw [ha.transfers _ h.2.1]; exact h.2.2.1, h.2.2.2⟩
  | transferStatus id st => exact ⟨h.1, by rw [ha.transfers _ h.1]; exact h.2⟩
  | bonus b => exact ⟨h.1, h.2.1, by rw [ha.bonuses _ h.2.1]; exact h.2.2⟩
  | owner a u => exact ⟨h.1, by rw [ha.accounts _ h.1]; exact h.2⟩
  | config c => trivial

theorem LegalAll.of_agree {ws : List Write} (h : LegalAll hashtext n H db ws)
    (ha : Agree H db db') : LegalAll hashtext n H db' ws := by
  induction ws generalizing db db' with
  | nil => trivial
  | cons w ws ih => exact ⟨h.1.of_agree ha, ih h.2 (ha.put w)⟩

end Agree

/-! ### What every session may do -/

/-- Rows are never removed: an entry and a bonus stay as they are, a request keeps every column but
its status (and a deposit its credited amount), and the status follows its transition table. -/
structure Grow (db db' : Db) : Prop where
  entries : ∀ id e, db.entries.find id = some e → db'.entries.find id = some e
  bonuses : ∀ id b, db.bonuses.find id = some b → db'.bonuses.find id = some b
  deposits : ∀ id d, db.deposits.find id = some d → ∃ d', db'.deposits.find id = some d' ∧
    d' = { d with status := d'.status, credited := d'.credited } ∧
    ReflTransGen (fun x y => DepositStatus.canTransition x y) d.status d'.status
  withdrawals : ∀ id r, db.withdrawals.find id = some r → ∃ r', db'.withdrawals.find id = some r' ∧
    r' = { r with status := r'.status } ∧
    ReflTransGen (fun x y => WithdrawalStatus.canTransition x y) r.status r'.status
  transfers : ∀ id t, db.transfers.find id = some t → ∃ t', db'.transfers.find id = some t' ∧
    t' = { t with status := t'.status } ∧
    ReflTransGen (fun x y => TransferStatus.canTransition x y) t.status t'.status

theorem Grow.refl (db : Db) : Grow db db where
  entries _ _ h := h
  bonuses _ _ h := h
  deposits _ d h := ⟨d, h, rfl, .refl⟩
  withdrawals _ r h := ⟨r, h, rfl, .refl⟩
  transfers _ t h := ⟨t, h, rfl, .refl⟩

theorem Grow.trans {a b c : Db} (h : Grow a b) (h' : Grow b c) : Grow a c where
  entries id e he := h'.entries id e (h.entries id e he)
  bonuses id e he := h'.bonuses id e (h.bonuses id e he)
  deposits id d hd := by
    obtain ⟨d₁, h₁, e₁, p₁⟩ := h.deposits id d hd
    obtain ⟨d₂, h₂, e₂, p₂⟩ := h'.deposits id d₁ h₁
    exact ⟨d₂, h₂, by rw [e₂, e₁], p₁.trans p₂⟩
  withdrawals id r hr := by
    obtain ⟨r₁, h₁, e₁, p₁⟩ := h.withdrawals id r hr
    obtain ⟨r₂, h₂, e₂, p₂⟩ := h'.withdrawals id r₁ h₁
    exact ⟨r₂, h₂, by rw [e₂, e₁], p₁.trans p₂⟩
  transfers id t ht := by
    obtain ⟨t₁, h₁, e₁, p₁⟩ := h.transfers id t ht
    obtain ⟨t₂, h₂, e₂, p₂⟩ := h'.transfers id t₁ h₁
    exact ⟨t₂, h₂, by rw [e₂, e₁], p₁.trans p₂⟩

theorem mem_transferStatus {db : Db} {id : ℕ} {st : TransferStatus} {t a : Transfer}
    (ht : db.transfers.find id = some t) : a ∈ (Db.put (.transferStatus id st) db).transfers.rows ↔
      a = { t with status := st } ∨ a ∈ db.transfers.rows ∧ a.id ≠ id :=
  mem_modify (f := fun t => { t with status := st }) (p := fun _ => rfl) ht

theorem find_insert_of_some {α : Type} [Keyed α ℕ] {t : Table α} {r a : α} {k : ℕ}
    (h : t.find k = some a) : (t.insert r).find k = some a := by
  rw [find_insert, h]
  split_ifs <;> rfl

section Steady

variable {hashtext : String → ℤ} {n : ℕ} {H : Set Lock} {db : Db} {who : Investor} {a b : Db}
  {x y : TransferStatus}

theorem Write.Legal.grow {w : Write} (h : w.Legal hashtext n H db) : Grow db (Db.put w db) := by
  have hr := Grow.refl db
  cases w with
  | entry e => exact { hr with entries := fun id a ha => find_insert_of_some ha }
  | deposit d =>
    exact { hr with deposits := fun id a ha => ⟨a, find_insert_of_some ha, rfl, .refl⟩ }
  | depositStatus i st cr =>
    obtain ⟨-, d₀, hd₀, hc⟩ := h
    refine { hr with deposits := fun id d hd => ?_ }
    exact exists_find_modify (p := by intro; rfl) hd₀ hd (fun he => ⟨rfl, .single (he ▸ hc)⟩) ⟨rfl, .refl⟩
  | withdrawal r =>
    exact { hr with withdrawals := fun id a ha => ⟨a, find_insert_of_some ha, rfl, .refl⟩ }
  | withdrawalStatus i st =>
    obtain ⟨-, r₀, hr₀, hc⟩ := h
    refine { hr with withdrawals := fun id r hf => ?_ }
    exact exists_find_modify (p := by intro; rfl) hr₀ hf (fun he => ⟨rfl, .single (he ▸ hc)⟩) ⟨rfl, .refl⟩
  | transfer t =>
    exact { hr with transfers := fun id a ha => ⟨a, find_insert_of_some ha, rfl, .refl⟩ }
  | transferStatus i st =>
    obtain ⟨-, t₀, ht₀, hc, -⟩ := h
    refine { hr with transfers := fun id t hf => ?_ }
    exact exists_find_modify (p := by intro; rfl) ht₀ hf (fun he => ⟨rfl, .single (he ▸ hc)⟩) ⟨rfl, .refl⟩
  | bonus b => exact { hr with bonuses := fun id a ha => find_insert_of_some ha }
  | owner a u | config c => exact { hr with }

/-! ### What sessions without the ledger lock may do -/

/-- An investor's figures while another session works without the investor's ledger lock. -/
structure Steady (who : Investor) (db db' : Db) : Prop where
  balance : ∀ w, db'.balance who w = db.balance who w
  withdrawalHold : ∀ w, db'.withdrawalHold who w ≤ db.withdrawalHold who w
  openSum : ∀ P, db'.openSum who P ≤ db.openSum who P
  creditFunded : ∀ a, db'.creditFunded who a = db.creditFunded who a
  ownsAccount : ∀ a, db.ownsAccount who a → db'.ownsAccount who a

theorem Steady.refl (who : Investor) (db : Db) : Steady who db db :=
  ⟨fun _ => rfl, fun _ => le_rfl, fun _ => le_rfl, fun _ => rfl, fun _ h => h⟩

theorem Steady.trans {c : Db} (h : Steady who a b) (h' : Steady who b c) : Steady who a c where
  balance w := (h'.balance w).trans (h.balance w)
  withdrawalHold w := (h'.withdrawalHold w).trans (h.withdrawalHold w)
  openSum P := (h'.openSum P).trans (h.openSum P)
  creditFunded x := (h'.creditFunded x).trans (h.creditFunded x)
  ownsAccount x hx := h'.ownsAccount x (h.ownsAccount x hx)

theorem Steady.available (h : Steady who a b) (w : Wallet) :
    a.available who w ≤ b.available who w := by
  have h₁ := h.balance w
  have h₂ := h.withdrawalHold w
  have h₃ := h.openSum fun e => e.sourceWallet = some w
  unfold Db.available Db.transferHold
  omega

theorem Steady.outflow (h : Steady who a b) (x : ℕ) :
    b.openAccountTransfersOut who x ≤ a.openAccountTransfersOut who x := by
  rw [Db.openAccountTransfersOut_eq, Db.openAccountTransfersOut_eq]
  exact h.openSum _

theorem toDecimal_mono {x y : ℤ} (h : x ≤ y) : toDecimal x ≤ toDecimal y := by
  unfold toDecimal
  have : (x : ℚ) ≤ y := by exact_mod_cast h
  linarith

theorem WithdrawalStatus.isOpen_of_next {x y : WithdrawalStatus} (h : x.canTransition y)
    (ho : y.isOpen) : x.isOpen := by
  cases x <;> cases y <;> revert h ho <;> decide

theorem TransferStatus.isOpen_of_next (h : x.canTransition y) (ho : y.isOpen) : x.isOpen := by
  cases x <;> cases y <;> revert h ho <;> decide

theorem TransferStatus.ne_done_of_next (h : x.canTransition y) : x ≠ .done := by
  rintro rfl
  cases y <;> revert h <;> decide

/-- An insert of another investor's row adds nothing. -/
theorem sum_insert_zero {α : Type} [Keyed α ℕ] {t : Table α} {r : α} {g : α → ℤ}
    (h : t.find (Keyed.key r) = none) (hg : g r = 0) : (t.insert r).sum g = t.sum g := by
  rw [sum_insert g h, hg, zero_add]

theorem ite_amount_le {c c' : Prop} [Decidable c] [Decidable c'] (h : c' → c) (amount : Amount) :
    (if c' then amount.1 else 0) ≤ if c then amount.1 else 0 := by
  by_cases hc : c'
  · rw [if_pos hc, if_pos (h hc)]
  · rw [if_neg hc]
    split_ifs
    exacts [amount.2.le, le_rfl]

theorem Steady.status {i : ℕ} {st : TransferStatus} {t : Transfer}
    (ht : db.transfers.find i = some t) (hc : t.status.canTransition st)
    (hd : st = .done → t.who ≠ who) : Steady who db (Db.put (.transferStatus i st) db) := by
  refine { Steady.refl who db with openSum := fun P => ?_, creditFunded := fun a => ?_ }
  · exact sum_modify_le (p := by intro; rfl) ht
      (ite_amount_le (fun hn => ⟨hn.1, TransferStatus.isOpen_of_next hc hn.2.1, hn.2.2⟩) t.amount)
  · have h₁ : ¬ (t.who = who ∧ st = .done ∧ t.ends = .walletToAccount .credit (some a)) :=
      fun hn => hd hn.2.1 hn.1
    have h₂ : ¬ (t.who = who ∧ t.status = .done ∧ t.ends = .walletToAccount .credit (some a)) :=
      fun hn => TransferStatus.ne_done_of_next hc hn.2.1
    simp only [Db.creditFunded, Db.put]
    exact sum_modify_of_eq ht ((if_neg h₁).trans (if_neg h₂).symm)

theorem Steady.withdrawalStatus {i : ℕ} {st : WithdrawalStatus} {r : Withdrawal}
    (hr : db.withdrawals.find i = some r) (hc : r.status.canTransition st) :
    Steady who db (Db.put (.withdrawalStatus i st) db) := by
  refine { Steady.refl who db with withdrawalHold := fun w => ?_ }
  exact sum_modify_le (p := by intro; rfl) hr
    (ite_amount_le (fun hn => ⟨hn.1, WithdrawalStatus.isOpen_of_next hc hn.2.1, hn.2.2⟩) r.amount)

/-- A write of a session without the investor's ledger lock. -/
theorem Write.Legal.steady {w : Write} (h : w.Legal hashtext n H db)
    (hno : ledgerLock hashtext who ∉ H) : Steady who db (Db.put w db) := by
  have hr := Steady.refl who db
  have hother : ∀ {v : Investor}, ledgerLock hashtext v ∈ H → v ≠ who := by
    rintro v hv rfl
    exact hno hv
  cases w with
  | entry e =>
    refine { hr with balance := fun w => sum_insert_zero h.2.2.1 (if_neg fun hc => ?_) }
    exact hother h.2.2.2 hc.1
  | deposit d | depositStatus i st cr | bonus b | config c => exact { hr with }
  | withdrawal r =>
    refine { hr with withdrawalHold := fun w => (sum_insert_zero h.2.2.1 (if_neg fun hc => ?_)).le }
    exact hother h.2.2.2 hc.1
  | withdrawalStatus i st =>
    obtain ⟨-, r, hf, hc⟩ := h
    exact Steady.withdrawalStatus hf hc
  | transfer t =>
    have hne := hother h.2.2.2
    exact { hr with
      openSum := fun P => (sum_insert_zero h.2.2.1 (if_neg fun hc => hne hc.1)).le
      creditFunded := fun a => sum_insert_zero h.2.2.1 (if_neg fun hc => hne hc.1) }
  | transferStatus i st =>
    obtain ⟨-, t, hf, hc, hd⟩ := h
    exact Steady.status hf hc fun he => hother (hd he)
  | owner i u =>
    -- only the owner's own ledger lock allows the row to change hands
    obtain ⟨-, r, hf, hl⟩ := h
    refine { hr with ownsAccount := fun a ha => ?_ }
    unfold Db.ownsAccount at ha ⊢
    by_cases hi : i = a
    · subst hi
      rw [hf] at ha
      simp only [Bool.and_eq_true, beq_iff_eq] at ha
      have hv := hl who.user ha.2
      rw [ha.1] at hv
      exact absurd hv hno
    · simpa [find_modify, hi] using ha

end Steady

end Portal
