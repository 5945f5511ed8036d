import CopyTrading.Portal.RoutesSafe

/-!
# Portal.CreditExclusion — bonus credit does not leave through an account

A credit transfer into an account and a move out of that account exclude each other while open.  So
the credit funded into the account stands still while a move out of it is open, and the cap that
`decide_transfer` re-checks still holds of every move that `request_transfer` accepted.
-/

namespace Portal

open Relation ReadCommitted List Table TransferStatus

/-! ### Two ways of rounding the equity -/

theorem nonneg_of_floorCents_pos {q : ℚ} (h : 0 < floorCents q) : 0 ≤ q := by
  by_contra hq
  rw [floorCents, if_neg hq] at h
  have hc : ⌈q * 100⌉ ≤ 0 := Int.ceil_le.2 (by push_cast; linarith [not_le.1 hq])
  omega

/-- Whole cents leave the floor as they are, and the recorded equity is rounded half-up: the bound
of the request is not above the one of the re-check. -/
theorem floorCents_sub_le {q : ℚ} {c : ℤ} (hc : 0 ≤ c) (h : 0 < floorCents (q - toDecimal c)) :
    floorCents (q - toDecimal c) ≤ roundCents q - c := by
  have h0 := nonneg_of_floorCents_pos h
  have hd : 0 ≤ toDecimal c := by
    unfold toDecimal
    positivity
  have hq : 0 ≤ q := by linarith
  have he : (q - toDecimal c) * 100 = q * 100 - (c : ℚ) := by
    unfold toDecimal
    ring
  have hfl : floorCents (q - toDecimal c) = floorCents q - c := by
    rw [floorCents, floorCents, if_pos h0, if_pos hq, he, Int.floor_sub_intCast]
  have := floorCents_le_roundCents hq
  omega

theorem toDecimal_sub (x y : ℤ) : toDecimal x - toDecimal y = toDecimal (x - y) := by
  unfold toDecimal
  push_cast
  ring

theorem recheckCap_eq (db : Db) (who : Investor) (a : ℕ) (e : ℤ) :
    recheckCap db who a e = max (e - db.creditFunded who a) 0 := by
  rw [recheckCap, toDecimal_sub, floorCents_toDecimal]

section Figures

variable (db : Db) (who : Investor) (a : ℕ)

theorem Db.creditFunded_nonneg : 0 ≤ db.creditFunded who a :=
  sum_nonneg fun r _ => by split_ifs; exacts [r.amount.2.le, le_rfl]

theorem Db.openAccountTransfersOut_nonneg : 0 ≤ db.openAccountTransfersOut who a :=
  sum_nonneg fun r _ => by split_ifs; exacts [r.amount.2.le, le_rfl]

variable {db who a}

/-- An amount within `account_movable` fits under the recorded equity, next to the other open moves
out. -/
theorem Db.add_out_le {q : ℚ} {c : ℤ} (hc : 0 < c) (h : c ≤ db.movable who a q) :
    c + db.openAccountTransfersOut who a ≤ roundCents q - db.creditFunded who a := by
  have hf := db.creditFunded_nonneg who a
  have ho := db.openAccountTransfersOut_nonneg who a
  have he : q - toDecimal (db.openAccountTransfersOut who a) - toDecimal (db.creditFunded who a) =
      q - toDecimal (db.openAccountTransfersOut who a + db.creditFunded who a) := by
    unfold toDecimal
    push_cast
    ring
  rw [Db.movable, he] at h
  have hle := floorCents_sub_le (q := q) (add_nonneg ho hf) (by omega)
  omega

end Figures

/-! ### What a committed action does to the transfers -/

/-- A transfer row as it is inserted, with what its route checked. -/
structure Filed (db : Db) (t : Transfer) : Prop where
  fresh : db.transfers.find t.id = none
  done : t.status = .done → t.ends.targetAccount = none
  creditIn : ∀ a, t.ends = .walletToAccount .credit (some a) →
    ¬ 0 < db.openAccountTransfersOut t.who a
  out : ∀ a, t.ends.sourceAccount = some a → ¬ db.creditTransferOpen t.who a
  cap : ∀ a e, t.ends.sourceAccount = some a → t.equityAtRequest = some e →
    t.amount.1 + db.openAccountTransfersOut t.who a ≤ e - db.creditFunded t.who a

/-- The transfers after a committed action. -/
inductive TransferChange (db db' : Db) : Prop
  | same (h : db'.transfers = db.transfers)
  | file (t : Transfer) (hf : Filed db t) (h : db'.transfers = db.transfers.insert t)
  | move (id : ℕ) (st : TransferStatus) (t : Transfer) (ht : db.transfers.find id = some t)
      (hc : t.status.canTransition st)
      (h : db'.transfers = (Db.put (.transferStatus id st) db).transfers)

section Change

variable {hashtext : String → ℤ} {n : ℕ} {H : Set Lock} {own : Prop} {db db' : Db} {ws : List Write}
  {t : Transfer}

theorem transfers_view_entries (es : List WalletEntry) (db : Db) :
    (view (es.map .entry) db).transfers = db.transfers := by
  rw [view_entries]

/-- A row that fills an account from a wallet other than `credit`, or moves between wallets. -/
theorem Filed.of_plain (hf : db.transfers.find t.id = none)
    (hd : t.status = .done → t.ends.targetAccount = none) (hs : t.ends.sourceAccount = none)
    (hx : ∀ a, t.ends = .walletToAccount .credit (some a) →
      ¬ 0 < db.openAccountTransfersOut t.who a) : Filed db t :=
  ⟨hf, hd, hx, fun a ha => by simp [hs] at ha, fun a e ha => by simp [hs] at ha⟩

theorem Kind.transferChange (hl : LegalAll hashtext n H db ws) (hk : Kind own db ws) :
    TransferChange db (view ws db) := by
  cases hk with
  | fundDeposit id d credited e tid a hd he ho =>
    refine .file ⟨tid, d.who, .walletToAccount .main (some a), credited, .approved, none, false⟩
      (.of_plain hl.2.2.1.2.2.1 ?_ rfl ?_) rfl
    · exact fun h => absurd h (by simp)
    · exact fun b h => absurd h (by simp)
  | moveInstant t s w ne es he hs ha hp =>
    refine .file t (.of_plain hl.1.2.2.1 (fun _ => by rw [he]; rfl) (by rw [he]; rfl) ?_)
      (transfers_view_entries es _)
    exact fun b h => absurd (he.symm.trans h) (by simp)
  | moveIn t w a he hs ha hx ho =>
    refine .file t (.of_plain hl.1.2.2.1 ?_ (by rw [he]; rfl) ?_) rfl
    · exact fun h => absurd (hs.symm.trans h) (by decide)
    · intro b h
      obtain ⟨rfl, rfl⟩ : w = .credit ∧ a = b := by simpa using he.symm.trans h
      exact hx rfl
  | moveOut t a w equity he hs hq hx hm hu ho =>
    have ha : ∀ b, t.ends.sourceAccount = some b → a = b := by
      intro b hb
      simpa [he, Ends.sourceAccount] using hb
    refine .file t ⟨hl.1.2.2.1, ?_, ?_, ?_, ?_⟩ rfl
    · exact fun h => absurd (hs.symm.trans h) (by decide)
    · exact fun b h => absurd (he.symm.trans h) (by simp)
    · intro b hb
      exact ha b hb ▸ hx
    · intro b e hb heq
      rw [hq] at heq
      obtain ⟨q, rfl, rfl⟩ := Option.map_eq_some_iff.1 heq
      rw [← ha b hb]
      exact Db.add_out_le t.amount.2 (hm q rfl)
  | moveTransfer id st hst =>
    obtain ⟨⟨-, t, ht, hc, -⟩, -⟩ := hl
    exact .move id st t ht hc rfl
  | doneTransfer id t es ht hp =>
    obtain ⟨⟨-, t', ht', hc, -⟩, -⟩ := hl
    exact .move id .done t' ht' hc (transfers_view_entries es _)
  | _ => exact .same rfl

/-- An open row was filed now, or was open before with the same columns. -/
theorem TransferChange.mem (h : TransferChange db db') {r : Transfer} (hr : r ∈ db'.transfers.rows)
    (ho : r.status.isOpen) : (Filed db r ∧ db'.transfers.rows = r :: db.transfers.rows) ∨
      ∃ r₀ ∈ db.transfers.rows, r₀.status.isOpen ∧ r₀.who = r.who ∧ r₀.ends = r.ends := by
  cases h with
  | same h => exact .inr ⟨r, h ▸ hr, ho, rfl, rfl⟩
  | file t hf h =>
    rw [h] at hr
    rcases (mem_insert hf.fresh).1 hr with rfl | hr
    · exact .inl ⟨hf, by rw [h, insert_rows hf.fresh]⟩
    · exact .inr ⟨r, hr, ho, rfl, rfl⟩
  | move id st t ht hc h =>
    rw [h] at hr
    rcases (mem_transferStatus ht).1 hr with rfl | ⟨hr, -⟩
    · exact .inr ⟨t, (find_eq_some ht).1, isOpen_of_next hc ho, rfl, rfl⟩
    · exact .inr ⟨r, hr, ho, rfl, rfl⟩

/-- A filed row funds no credit: only moves between wallets are done at once. -/
theorem Filed.creditFunded (hf : Filed db t) (h : db'.transfers = db.transfers.insert t)
    (who : Investor) (a : ℕ) : db'.creditFunded who a = db.creditFunded who a := by
  rw [Db.creditFunded, h]
  refine sum_insert_zero hf.fresh (if_neg ?_)
  rintro ⟨-, hd, he⟩
  have := hf.done hd
  simp [he, Ends.targetAccount] at this

/-- Funded credit changes only when an open credit transfer into the account is done. -/
theorem TransferChange.creditFunded (h : TransferChange db db') (who : Investor) (a : ℕ) :
    db'.creditFunded who a = db.creditFunded who a ∨
      ∃ t ∈ db.transfers.rows, t.status.isOpen ∧ t.who = who ∧
        t.ends = .walletToAccount .credit (some a) := by
  cases h with
  | same h => exact .inl (by rw [Db.creditFunded, h]; rfl)
  | file t hf h => exact .inl (hf.creditFunded h who a)
  | move id st t ht hc h =>
    by_cases hx : t.who = who ∧ st = .done ∧ t.ends = .walletToAccount .credit (some a)
    · refine .inr ⟨t, (find_eq_some ht).1, ?_, hx.1, hx.2.2⟩
      rw [hx.2.1] at hc
      revert hc
      cases t.status <;> decide
    · refine .inl ?_
      have h₂ : ¬ (t.who = who ∧ t.status = .done ∧ t.ends = .walletToAccount .credit (some a)) :=
        fun hn => ne_done_of_next hc hn.2.1
      rw [Db.creditFunded, h]
      simp only [Db.put]
      exact sum_modify_of_eq ht ((if_neg hx).trans (if_neg h₂).symm)

end Change

/-! ### Mutual exclusion -/

/-- No open credit transfer into an account next to an open move out of it, for one investor. -/
def Apart (db : Db) : Prop :=
  ∀ t ∈ db.transfers.rows, ∀ t' ∈ db.transfers.rows, ∀ a, t.status.isOpen → t'.status.isOpen →
    t.who = t'.who → t.ends = .walletToAccount .credit (some a) → t'.ends.sourceAccount ≠ some a

section Apart

variable {db db' : Db}

theorem Apart.keeps (h : Apart db) (hc : TransferChange db db') : Apart db' := by
  intro t ht t' ht' a ho ho' hw he he'
  rcases hc.mem ht ho with ⟨hf, hr⟩ | ⟨r, hr, hro, hrw, hre⟩
  · rcases hc.mem ht' ho' with ⟨-, hr'⟩ | ⟨r', hr', hro', hrw', hre'⟩
    · -- one row is filed at a time
      obtain rfl : t = t' := (cons.inj (hr.symm.trans hr')).1
      simp [he, Ends.sourceAccount] at he'
    · refine hf.creditIn a he ?_
      rw [Db.openAccountTransfersOut_eq, Db.openSum_pos]
      exact ⟨r', hr', hrw'.trans hw.symm, hro', by simpa [hre'] using he'⟩
  · rcases hc.mem ht' ho' with ⟨hf', -⟩ | ⟨r', hr', hro', hrw', hre'⟩
    · refine hf'.out a he' ?_
      rw [Db.creditTransferOpen_iff, Db.openSum_pos]
      exact ⟨r, hr, hrw.trans hw, hro, by simpa [hre] using he⟩
    · exact h r hr r' hr' a hro hro' ((hrw.trans hw).trans hrw'.symm) (hre.trans he)
        (hre'.symm ▸ he')

/-- While a move out of the account is open, funded credit stays. -/
theorem Apart.creditFunded (h : Apart db) (hc : TransferChange db db') {t : Transfer} {a : ℕ}
    (ht : t ∈ db.transfers.rows) (ho : t.status.isOpen) (hs : t.ends.sourceAccount = some a) :
    db'.creditFunded t.who a = db.creditFunded t.who a := by
  rcases hc.creditFunded t.who a with he | ⟨r, hr, hro, hrw, hre⟩
  · exact he
  · exact absurd hs (h r hr t ht a hro ho hrw hre)

end Apart

/-! ### The cap of the open moves out -/

/-- What a row adds to `open_account_transfers_out`. -/
def Transfer.outOf (who : Investor) (a : ℕ) (t : Transfer) : ℤ :=
  if t.who = who ∧ t.ends.sourceAccount = some a ∧ t.status.isOpen then t.amount.1 else 0

/-- Rows stand newest first.  Each open move out fits, together with the older ones still open, under
its recorded equity less the funded credit. -/
def Capped (who : Investor) (a : ℕ) (funded : ℤ) : List Transfer → Prop
  | [] => True
  | t :: l =>
    (∀ e, t.equityAtRequest = some e → 0 < t.outOf who a →
      t.outOf who a + (l.map (Transfer.outOf who a)).sum ≤ e - funded) ∧ Capped who a funded l

/-- The sum of the investor's open moves out of the account that were recorded at equity `e` and
belong to the set `Q`. -/
def Db.openOutAt (db : Db) (who : Investor) (a : ℕ) (e : ℤ) (Q : Transfer → Bool) : ℤ :=
  db.transfers.sum fun t =>
    if t.who = who ∧ t.ends.sourceAccount = some a ∧ t.status.isOpen ∧ t.equityAtRequest = some e ∧ Q t
    then t.amount.1 else 0

section Capped

variable {who : Investor} {a : ℕ} {f : ℤ} {l : List Transfer} {t : Transfer} {db db' : Db}

theorem Transfer.outOf_nonneg (who : Investor) (a : ℕ) (t : Transfer) : 0 ≤ t.outOf who a := by
  unfold outOf
  split_ifs
  exacts [t.amount.2.le, le_rfl]

theorem sum_outOf_nonneg (who : Investor) (a : ℕ) (l : List Transfer) :
    0 ≤ (l.map (Transfer.outOf who a)).sum := by
  refine sum_nonneg fun x hx => ?_
  obtain ⟨t, -, rfl⟩ := mem_map.1 hx
  exact Transfer.outOf_nonneg who a t

theorem Transfer.outOf_pos :
    0 < t.outOf who a ↔ t.who = who ∧ t.ends.sourceAccount = some a ∧ t.status.isOpen := by
  unfold outOf
  split_ifs with h
  · exact iff_of_true t.amount.2 h
  · exact iff_of_false (lt_irrefl _) h

theorem Capped.of_mem (h : Capped who a f l) (ht : t ∈ l) (ho : 0 < t.outOf who a) {e : ℤ}
    (he : t.equityAtRequest = some e) : t.outOf who a ≤ e - f := by
  induction l with
  | nil => simp at ht
  | cons r l ih =>
    rcases mem_cons.1 ht with rfl | ht
    · have := h.1 e he ho
      have := sum_outOf_nonneg who a l
      omega
    · exact ih h.2 ht

/-- Closing moves out keeps the cap. -/
theorem Capped.map {g : Transfer → Transfer} (h : Capped who a f l)
    (hg : ∀ t ∈ l, (g t).outOf who a ≤ t.outOf who a ∧ (g t).equityAtRequest = t.equityAtRequest) :
    Capped who a f (l.map g) := by
  induction l with
  | nil => trivial
  | cons t l ih =>
    obtain ⟨hle, heq⟩ := hg t mem_cons_self
    have hl := fun r hr => hg r (mem_cons_of_mem t hr)
    refine ⟨fun e he hp => ?_, ih h.2 hl⟩
    have hsum : ((l.map g).map (Transfer.outOf who a)).sum ≤
        (l.map (Transfer.outOf who a)).sum := by
      rw [List.map_map]
      exact List.sum_le_sum fun r hr => (hl r hr).1
    have := h.1 e (heq ▸ he) (lt_of_lt_of_le hp hle)
    omega

/-- Without an open move out there is nothing to cap. -/
theorem Capped.of_none (h : ∀ t ∈ l, ¬ 0 < t.outOf who a) : Capped who a f l := by
  induction l with
  | nil => trivial
  | cons t l ih =>
    exact ⟨fun e _ hp => absurd hp (h t mem_cons_self),
      ih fun r hr => h r (mem_cons_of_mem t hr)⟩

/-- The newest of the moves recorded at equity `e` covers the others. -/
theorem Capped.sum_at (h : Capped who a f l) (e : ℤ) (Q : Transfer → Bool) :
    let g := fun t : Transfer => if t.who = who ∧ t.ends.sourceAccount = some a ∧ t.status.isOpen ∧
      t.equityAtRequest = some e ∧ Q t then t.amount.1 else 0
    (l.map g).sum ≤ (l.map (Transfer.outOf who a)).sum ∧
      (0 < (l.map g).sum → (l.map g).sum ≤ e - f) := by
  intro g
  induction l with
  | nil => simp
  | cons t l ih =>
    obtain ⟨ihle, ihcap⟩ := ih h.2
    simp only [map_cons, sum_cons]
    by_cases ht : t.who = who ∧ t.ends.sourceAccount = some a ∧ t.status.isOpen ∧
        t.equityAtRequest = some e ∧ Q t
    · have hg : g t = t.amount.1 := if_pos ht
      have ho : t.outOf who a = t.amount.1 := if_pos ⟨ht.1, ht.2.1, ht.2.2.1⟩
      have hcap := h.1 e ht.2.2.2.1 (ho ▸ t.amount.2)
      exact ⟨by omega, fun _ => by omega⟩
    · have hg : g t = 0 := if_neg ht
      have ho := Transfer.outOf_nonneg who a t
      exact ⟨by omega, fun hp => by have := ihcap (by omega); omega⟩

/-- The caps of all investors and accounts in a committed state. -/
def AllCapped (db : Db) : Prop :=
  ∀ who a, Capped who a (db.creditFunded who a) db.transfers.rows

theorem AllCapped.keeps (h : AllCapped db) (hx : Apart db) (hc : TransferChange db db') :
    AllCapped db' := by
  intro who a
  have hc' := hc
  cases hc with
  | same he =>
    have hf : db'.creditFunded who a = db.creditFunded who a := by rw [Db.creditFunded, he]; rfl
    rw [he, hf]
    exact h who a
  | file t hf he =>
    rw [hf.creditFunded he, he, insert_rows hf.fresh]
    refine ⟨fun e heq hp => ?_, h who a⟩
    obtain ⟨rfl, hs, ho⟩ := Transfer.outOf_pos.1 hp
    have hout : t.outOf t.who a = t.amount.1 := if_pos ⟨rfl, hs, ho⟩
    rw [hout]
    exact hf.cap a e hs heq
  | move id st t ht hcan he =>
    -- the rows keep their order and their columns, and only close
    have hrows : ∀ r ∈ db.transfers.rows,
        (if r.id = id then { r with status := st } else r).outOf who a ≤ r.outOf who a ∧
        (if r.id = id then { r with status := st } else r).equityAtRequest = r.equityAtRequest := by
      intro r hr
      by_cases hid : r.id = id
      · have hrt : r = t := eq_of_find ht hr hid
        rw [if_pos hid]
        refine ⟨?_, rfl⟩
        by_cases hn : 0 < ({ r with status := st } : Transfer).outOf who a
        · obtain ⟨hw, hs, ho⟩ := Transfer.outOf_pos.1 hn
          subst hrt
          have hopen := isOpen_of_next hcan ho
          exact (le_of_eq (if_pos ⟨hw, hs, ho⟩)).trans (le_of_eq (if_pos ⟨hw, hs, hopen⟩).symm)
        · exact (not_lt.1 hn).trans (Transfer.outOf_nonneg who a r)
      · rw [if_neg hid]
        exact ⟨le_rfl, rfl⟩
    have hmap : db'.transfers.rows =
        db.transfers.rows.map fun r => if r.id = id then { r with status := st } else r := by
      rw [he]
      rfl
    rw [hmap]
    by_cases hn : ∃ r ∈ db.transfers.rows, 0 < r.outOf who a
    · obtain ⟨r, hr, hro⟩ := hn
      obtain ⟨rfl, hs, ho⟩ := Transfer.outOf_pos.1 hro
      rw [hx.creditFunded hc' hr ho hs]
      exact (h r.who a).map hrows
    · -- no open move out: the funded credit may change
      refine Capped.map (.of_none fun r hr hro => hn ⟨r, hr, hro⟩) hrows

end Capped

/-! ### Runs -/

section Runs

variable {S : Setting} {accounts : Table Account} {config : Config} {s s' : Sys} {t t' : Transfer}

theorem run_capped (ho : S.OwnedAtLock)
    (h : PortalRun S.hashtext S.sched (emptyLedger accounts config) s) :
    Apart s.db ∧ AllCapped s.db :=
  (run_induction ho (P := fun db => Apart db ∧ AllCapped db)
    ⟨fun t ht => absurd ht (by simp [emptyLedger, ReadCommitted.Sys.init]), fun _ _ => trivial⟩
    (fun _ _ _ _ _ hP hl hk => ⟨hP.1.keeps (hk.transferChange hl),
      hP.2.keeps hP.1 (hk.transferChange hl)⟩) h).1

/-- An open row was open in every earlier state that has it. -/
theorem Grow.isOpen {a b : Db} (h : Grow a b) (ht : a.transfers.find t.id = some t)
    (ht' : b.transfers.find t.id = some t') (ho : t'.status.isOpen) : t.status.isOpen := by
  obtain ⟨t₁, h₁, -, hp⟩ := h.transfers t.id t ht
  obtain rfl : t₁ = t' := Option.some.inj (h₁.symm.trans ht')
  generalize t.status = x at hp ⊢
  induction hp using ReflTransGen.head_induction_on with
  | refl => exact ho
  | head hc _ ih => exact isOpen_of_next hc ih

/-- Between two states in which the same move out is open, the funded credit has not changed. -/
theorem run_creditFunded (ho : S.OwnedAtLock)
    (h : PortalRun S.hashtext S.sched (emptyLedger accounts config) s)
    (h' : PortalRun S.hashtext S.sched s s') {a : ℕ} (ht : t ∈ s.db.transfers.rows)
    (ht' : s'.db.transfers.find t.id = some t') (hs : t.ends.sourceAccount = some a)
    (hopen : t'.status.isOpen) : s'.db.creditFunded t.who a = s.db.creditFunded t.who a := by
  have hall := run_induction_from ho h
    (P := fun db => Grow s.db db ∧ Apart db ∧ ∀ t₁, db.transfers.find t.id = some t₁ →
      t₁.status.isOpen → db.creditFunded t.who a = s.db.creditFunded t.who a)
    ⟨.refl s.db, (run_capped ho h).1, fun _ _ _ => rfl⟩ (fun n H db ws hP hl hk => ?_) h'
  · exact hall.2.2 t' ht' hopen
  · obtain ⟨hg, hx, hfund⟩ := hP
    have hg' : Grow db (view ws db) :=
      hl.keeps Grow.refl (fun _ _ _ => Grow.trans) fun _ _ hw => hw.grow
    refine ⟨hg.trans hg', hx.keeps (hk.transferChange hl), fun t₂ h₂ ho₂ => ?_⟩
    -- the row between the two states is open as well
    obtain ⟨t₁, h₁, e₁, -⟩ := hg.transfers t.id t (find_of_mem ht)
    have hid : t₁.id = t.id := (find_eq_some h₁).2
    have ho₁ : t₁.status.isOpen := hg'.isOpen (hid ▸ h₁) (hid ▸ h₂) ho₂
    have hwho : t₁.who = t.who := by rw [e₁]
    have hsrc : t₁.ends.sourceAccount = some a := by rw [e₁]; exact hs
    have hstep := hx.creditFunded (hk.transferChange hl) (find_eq_some h₁).1 ho₁ hsrc
    rw [hwho] at hstep
    exact hstep.trans (hfund t₁ h₁ ho₁)

end Runs

/-- The bound at filing is not above the bound of the re-check. -/
theorem movable_le_recheckCap (db : Db) (who : Investor) (a : ℕ) (equity : ℚ) :
    db.movable who a equity ≤ recheckCap db who a (roundCents equity) := by
  rw [recheckCap_eq]
  by_cases hp : 0 < db.movable who a equity
  · have := Db.add_out_le hp le_rfl
    have := db.openAccountTransfersOut_nonneg who a
    omega
  · omega

/-- **Bonus credit stays in the account.**  In every reached state of every interleaving: an open
credit transfer into an account and an open move out of it never coexist; the funded credit is the
same in all states in which one move out is open; the cap of the re-check, recorded equity less
funded credit, is not below the bound checked at filing and refuses no open move out; and open moves
out recorded at one equity sum to at most that equity less the funded credit. -/
theorem bonus_credit_stays (hashtext : String → ℤ) (accounts : Table Account) (config : Config)
    (s : Sys) (h : PortalRun hashtext anyTime (emptyLedger accounts config) s) :
    (∀ t ∈ s.db.transfers.rows, ∀ t' ∈ s.db.transfers.rows, ∀ a, t.status.isOpen →
      t'.status.isOpen → t.who = t'.who → t.ends = .walletToAccount .credit (some a) →
      t'.ends.sourceAccount ≠ some a) ∧
    (∀ s' t t' a, PortalRun hashtext anyTime s s' → t ∈ s.db.transfers.rows →
      s'.db.transfers.find t.id = some t' → t.ends.sourceAccount = some a → t'.status.isOpen →
      s'.db.creditFunded t.who a = s.db.creditFunded t.who a) ∧
    (∀ who a equity, s.db.movable who a equity ≤ recheckCap s.db who a (roundCents equity)) ∧
    (∀ t ∈ s.db.transfers.rows, ∀ a e, t.status.isOpen → t.ends.sourceAccount = some a →
      t.equityAtRequest = some e → t.amount.1 ≤ recheckCap s.db t.who a e) ∧
    ∀ who a e Q, 0 < s.db.openOutAt who a e Q →
      s.db.openOutAt who a e Q ≤ e - s.db.creditFunded who a := by
  have ho := anySchedule_owned hashtext
  obtain ⟨hx, hcap⟩ := run_capped (S := anySchedule hashtext) ho h
  refine ⟨hx, ?_, movable_le_recheckCap s.db, ?_, fun who a e Q => ((hcap who a).sum_at e Q).2⟩
  · intro s' t t' a h' ht ht' hs hopen
    exact run_creditFunded (S := anySchedule hashtext) ho h h' ht ht' hs hopen
  · intro t ht a e hopen hs he
    have hout : t.outOf t.who a = t.amount.1 := if_pos ⟨rfl, hs, hopen⟩
    have := (hcap t.who a).of_mem ht (hout ▸ t.amount.2) he
    rw [recheckCap_eq]
    omega

/-- Two moves out of account 5, of 60.00 and of 40.00, while its equity reads 100.00. -/
def sampleMovesOut : List (Action Request) :=
  serve 0 (sampleMoveOut 60) 7 ++ serve 1 (sampleMoveOut 40) 7

theorem bonus_credit_stays_sample :
    ∃ s, PortalRun (fun _ => 0) anyTime (emptyLedger sampleAccounts sampleConfig) s ∧
      0 < s.db.openOutAt ⟨1, 1⟩ 5 10000 (fun _ => true) ∧
      s.db.openOutAt ⟨1, 1⟩ 5 10000 (fun _ => true) ≤ 10000 - s.db.creditFunded ⟨1, 1⟩ 5 := by
  obtain ⟨s, hs, hp⟩ := exists_of_anyRun sampleAccounts sampleMovesOut
    (P := fun s => 0 < s.db.openOutAt ⟨1, 1⟩ 5 10000 (fun _ => true)) (by decide +kernel)
  exact ⟨s, hs, hp, (bonus_credit_stays _ _ _ s hs).2.2.2.2 ⟨1, 1⟩ 5 10000 _ hp⟩

/-- **The two bounds differ**: for the second of two open moves out, recorded equity less funded
credit less the other open move is 40.00, and the cap of the re-check is 100.00. -/
theorem recheck_ignores_open_moves :
    ∃ s, PortalRun (fun _ => 0) anyTime (emptyLedger sampleAccounts sampleConfig) s ∧
      ∃ t ∈ s.db.transfers.rows, t.status.isOpen = true ∧ t.ends = .accountToWallet (some 5) .main ∧
        t.equityAtRequest = some 10000 ∧
        10000 - s.db.creditFunded t.who 5 - (s.db.openAccountTransfersOut t.who 5 - t.amount.1) =
          4000 ∧
        recheckCap s.db t.who 5 10000 = 10000 :=
  exists_of_anyRun sampleAccounts sampleMovesOut (by decide +kernel)

end Portal
