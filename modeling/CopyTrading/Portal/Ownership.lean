import CopyTrading.Portal.RoutesSafe

/-!
# Portal.Ownership — whose account an open transfer names

`request_transfer` checks that the investor owns the account before its transaction and not again
under the ledger lock, while `unlink` looks for open transfers under that lock.  An account that
changes hands between the check and the lock leaves an open transfer on somebody else's account.
When the account is still linked as the request takes the lock, the
two checks exclude each other and every open transfer names its investor's account.
-/

namespace Portal

open ReadCommitted

/-- The account end, if there is one, is an account linked to the investor. -/
def Ends.Linked (db : Db) (who : Investor) : Ends → Prop
  | .walletToWallet _ _ _ => True
  | .walletToAccount _ a => ∃ x, a = some x ∧ db.ownsAccount who x
  | .accountToWallet a _ => ∃ x, a = some x ∧ db.ownsAccount who x

/-- Every open transfer names an account linked to its investor. -/
def Owned (db : Db) : Prop :=
  ∀ t ∈ db.transfers.rows, t.status.isOpen → t.ends.Linked db t.who

/-- As `request_transfer` takes the ledger lock, the account it names is linked to the investor. -/
def stillOwned (q : Request) (_ : Lock) (db : Db) : Bool :=
  match q with
  | .requestTransfer ctx body =>
    (match body.source with
      | .account a => db.ownsAccount ctx a
      | _ => true) &&
    (match body.target with
      | .account a => db.ownsAccount ctx a
      | _ => true)
  | _ => true

/-- The schedules in which no account changes hands between the check and the lock. -/
def ownedSchedule (hashtext : String → ℤ) : Setting :=
  ⟨hashtext, True, fun q l db => stillOwned q l db = true⟩

theorem ownedSchedule_owned (hashtext : String → ℤ) : (ownedSchedule hashtext).OwnedAtLock := by
  intro ctx body l db hs _ a ha
  have hs' : stillOwned (.requestTransfer ctx body) l db = true := hs
  simp only [stillOwned, Bool.and_eq_true] at hs'
  rcases ha with ha | ha
  · simpa [ha] using hs'.1
  · simpa [ha] using hs'.2

section Step

variable {hashtext : String → ℤ} {n : ℕ} {H : Set Lock} {db : Db} {ws : List Write} {t : Transfer}

theorem Ends.Linked.mono {db' : Db} {who : Investor} {e : Ends} (h : e.Linked db who)
    (ho : ∀ a, (e.sourceAccount = some a ∨ e.targetAccount = some a) → db.ownsAccount who a →
      db'.ownsAccount who a) : e.Linked db' who := by
  cases e with
  | walletToWallet s t ne => trivial
  | walletToAccount w a =>
    obtain ⟨x, rfl, hx⟩ := h
    exact ⟨x, rfl, ho x (.inr rfl) hx⟩
  | accountToWallet a w =>
    obtain ⟨x, rfl, hx⟩ := h
    exact ⟨x, rfl, ho x (.inl rfl) hx⟩

theorem Owned.same {db' : Db} (h : Owned db) (ht : db'.transfers = db.transfers)
    (ha : db'.accounts = db.accounts) : Owned db' := by
  intro t hm hs
  rw [ht] at hm
  exact (h t hm hs).mono fun a _ ho => by rwa [Db.ownsAccount, ha]

/-- A transfer whose account is linked, or one that is not open, may be inserted. -/
theorem Owned.insert (h : Owned db) (hf : db.transfers.find t.id = none)
    (ho : t.status.isOpen → t.ends.Linked db t.who) : Owned (Db.put (.transfer t) db) := by
  intro a ha hs
  rcases (Table.mem_insert hf).1 ha with rfl | ha
  · exact (ho hs).mono fun _ _ hx => hx
  · exact (h a ha hs).mono fun _ _ hx => hx

theorem Owned.status {id : ℕ} {st : TransferStatus} (h : Owned db)
    (ht : db.transfers.find id = some t) (hc : t.status.canTransition st) :
    Owned (Db.put (.transferStatus id st) db) := by
  intro a ha hs
  rcases (mem_transferStatus ht).1 ha with rfl | ⟨ha, -⟩
  · exact h t (Table.find_eq_some ht).1 (TransferStatus.isOpen_of_next hc hs)
  · exact h a ha hs

/-- Entries leave transfers and accounts. -/
theorem Owned.entries {es : List WalletEntry} (h : Owned db) : Owned (view (es.map .entry) db) := by
  rw [view_entries]
  exact h.same rfl rfl

/-- An account changes hands that no open transfer of its owner names. -/
theorem Owned.owner {a : ℕ} {u : Option ℕ} (h : Owned db)
    (hne : ∀ t ∈ db.transfers.rows, t.status.isOpen →
      (t.ends.sourceAccount = some a ∨ t.ends.targetAccount = some a) → ¬ db.ownsAccount t.who a) :
    Owned (Db.put (.owner a u) db) := by
  intro t ht hs
  refine (h t ht hs).mono fun x hn hx => ?_
  have hax : a ≠ x := by
    rintro rfl
    exact hne t ht hs hn hx
  obtain ⟨r, hf, horg, hinv⟩ := Setting.ownsAccount_iff.1 hx
  exact Setting.ownsAccount_iff.2 ⟨r, (Table.find_modify_ne (p := by intro; rfl) hax).trans hf, horg, hinv⟩

/-- **One committed action** keeps the ownership of open transfers, when requests commit for linked
accounts only. -/
theorem Owned.keeps (h : Owned db) (hl : LegalAll hashtext n H db ws) (hk : Kind True db ws) :
    Owned (view ws db) := by
  cases hk with
  | fileDeposit d hs | closeDeposit id st cr hst | confirmDeposit id d credited e hd he
  | requestWithdrawal r hs ha | moveWithdrawal id st hst | payWithdrawal id r e hr he
  | payBonus b e he ha | postAdjustment e hr hk | configure c => exact h.same rfl rfl
  | fundDeposit id d credited e tid a hd he ho =>
    have h' : Owned (view [.depositStatus id .confirmed (some credited.1), .entry e] db) :=
      h.same rfl rfl
    exact h'.insert hl.2.2.1.2.2.1 fun _ => ⟨a, rfl, ho⟩
  | moveInstant t s w ne es he hs ha hp =>
    refine Owned.entries (h.insert hl.1.2.2.1 fun ho => ?_)
    rw [hs] at ho
    exact absurd ho (by decide)
  | moveIn t w a he hs ha hx ho | moveOut t a w equity he hs hq hx hm hu ho =>
    refine h.insert hl.1.2.2.1 fun _ => ?_
    rw [he]
    exact ⟨a, rfl, ho trivial⟩
  | moveTransfer id st hst =>
    obtain ⟨⟨-, t, ht, hc, -⟩, -⟩ := hl
    exact h.status ht hc
  | doneTransfer id t es ht hp =>
    obtain ⟨⟨-, t', ht', hc, -⟩, -⟩ := hl
    exact Owned.entries (h.status ht' hc)
  | linkAccount a u r hr hi =>
    -- a free account is nobody's, so no open transfer names it
    refine h.owner fun t _ _ _ ho => ?_
    obtain ⟨r', hf, -, hinv⟩ := Setting.ownsAccount_iff.1 ho
    obtain rfl : r = r' := Option.some.inj (hr.symm.trans hf)
    cases hi.symm.trans hinv
  | unlinkAccount who a ho hx =>
    -- an open transfer on the account would be its owner's, and the unlink refused
    refine h.owner fun t ht hs hn ho' => ?_
    obtain ⟨r', hf, horg, hinv⟩ := Setting.ownsAccount_iff.1 ho'
    obtain ⟨r, hr, ho₁, ho₂⟩ := Setting.ownsAccount_iff.1 ho
    obtain rfl : r = r' := Option.some.inj (hr.symm.trans hf)
    have hwho : t.who = who := by
      have hu : t.who.user = who.user := Option.some.inj (hinv.symm.trans ho₂)
      have hg : t.who.org = who.org := horg.symm.trans ho₁
      cases hw : t.who
      cases who
      simp_all
    refine hx (Db.openTransferNames_iff.2 (Db.openSum_pos.2 ⟨t, ht, hwho, hs, ?_⟩))
    simpa using hn

end Step

/-- **Account ownership of open transfers.**  In every run in which the account a transfer request
names is still linked when the request takes the ledger lock, every open transfer of every reached
state names an account linked to its investor. -/
theorem open_transfers_owned (hashtext : String → ℤ) (accounts : Table Account) (config : Config)
    (s : Sys) (h : PortalRun hashtext (fun q l db => stillOwned q l db = true)
      (emptyLedger accounts config) s) (t : Transfer) (ht : t ∈ s.db.transfers.rows)
    (hs : t.status.isOpen) : t.ends.Linked s.db t.who :=
  (run_induction (S := ownedSchedule hashtext) (ownedSchedule_owned hashtext) (P := Owned)
    (fun t ht => absurd ht (by simp [emptyLedger, ReadCommitted.Sys.init]))
    (fun _ _ _ _ _ hP hl hk => hP.keeps hl hk) h).1 t ht hs

/-- The account is unlinked and linked again while a request of its owner is under way; once the transfer is open
it is not unlinked. -/
theorem open_transfers_owned_sample :
    ∃ s, PortalRun (fun _ => 0) (fun q l db => stillOwned q l db = true)
      (emptyLedger sampleAccounts sampleConfig) s ∧
      ∃ t ∈ s.db.transfers.rows, t.status.isOpen = true ∧ t.ends = .accountToWallet (some 5) .main ∧
        t.ends.Linked s.db t.who := by
  obtain ⟨s, hs, t, ht, ho, he⟩ := exists_of_sampleRun stillOwned (fun _ _ _ h => h) sampleAccounts
    ([.start 0 (sampleMoveOut 50), .run 0] ++ serve 1 (.unlinkInvestorAccount ⟨1, 1⟩ 5) 6 ++
      serve 2 (.linkInvestorAccount ⟨1, 1⟩ 5) 7 ++ List.replicate 6 (.run 0) ++
      serve 3 (.unlinkInvestorAccount ⟨1, 1⟩ 5) 5)
    (P := fun s => ∃ t ∈ s.db.transfers.rows, t.status.isOpen = true ∧
      t.ends = .accountToWallet (some 5) .main) (by decide +kernel)
  exact ⟨s, hs, t, ht, ho, he, open_transfers_owned _ _ _ s hs t ht ho⟩

/-- **The schedule that escapes both checks**: the ownership check passes, the account is unlinked and
linked to investor `⟨1, 2⟩`, and only then the request takes the lock and files the transfer. -/
theorem transfer_on_foreign_account :
    ∃ s, PortalRun (fun _ => 0) anyTime (emptyLedger sampleAccounts sampleConfig) s ∧
      ∃ t ∈ s.db.transfers.rows, t.who = ⟨1, 1⟩ ∧ t.status.isOpen = true ∧
        t.ends = .accountToWallet (some 5) .main ∧ s.db.ownsAccount ⟨1, 2⟩ 5 = true ∧
        s.db.ownsAccount t.who 5 = false :=
  exists_of_anyRun sampleAccounts
    ([.start 0 (sampleMoveOut 50), .run 0] ++ serve 1 (.unlinkInvestorAccount ⟨1, 1⟩ 5) 6 ++
      serve 2 (.linkInvestorAccount ⟨1, 2⟩ 5) 7 ++ List.replicate 6 (.run 0)) (by decide +kernel)

end Portal
