import CopyTrading.Portal.Postings

/-!
# Portal.Safety — every route commits portal actions only

The routes against the abstract portal: whatever the other sessions commit in between, each commit
of a route is a sequence of actions (`Kind`) with legal writes.  The rules below follow the helpers
of `Portal.Common`; a route's proof is their composition.
-/

namespace Portal

open Relation ReadCommitted

/-- What the results are relative to: the hash of the ledger lock, whether transfers are requested
for linked accounts only, and the schedules considered. -/
structure Setting where
  hashtext : String → ℤ
  own : Prop
  sched : Request → Lock → Db → Prop

namespace Setting

variable (S : Setting)

/-- One committed action under the locks `H`. -/
def Commit (n : ℕ) (H : Set Lock) (db db' : Db) : Prop :=
  ∃ ws, LegalAll S.hashtext n H db ws ∧ Kind S.own db ws ∧ db' = view ws db

/-- The abstract portal: ids come from the counter and the ledger is exact; a transaction commits
actions. -/
def spec : Spec Db Lock where
  I n db := Below n db ∧ Exact db
  Act n H := ReflTransGen (S.Commit n H)
  mono hn h := ⟨h.1.mono hn, h.2⟩
  act_inv hI h := by
    induction h with
    | refl => exact hI
    | tail _ hc ih =>
      obtain ⟨ws, hl, hk, rfl⟩ := hc
      exact ⟨hl.below ih.1, ih.2.keeps hl hk⟩

/-- The program `p` of request `q` commits actions only. -/
abbrev Ok (q : Request) (p : Prog) (H : Set Lock) (ws : List Write) (db : Db) (n : ℕ) : Prop :=
  Safe Db.put S.spec S.sched q p H ws db n

variable {S} {q : Request} {H : Set Lock} {ws : List Write} {db db' : Db} {n n' : ℕ}

/-! ### What the others do -/

/-- What each legal write of a session with other locks keeps is kept by the others. -/
theorem interf_keeps {P : Db → Db → Prop} (hr : ∀ db, P db db) (ht : ∀ a b c, P a b → P b c → P a c)
    (h1 : ∀ m H' a w, Disjoint H H' → Write.Legal S.hashtext m H' a w → P a (Db.put w a))
    (h : S.spec.Interf H db n db' n') : P db db' := by
  refine h.others.keeps hr ht fun m H' a b hd hact => ?_
  induction hact with
  | refl => exact hr a
  | tail _ hc ih =>
    obtain ⟨ws, hl, -, rfl⟩ := hc
    exact ht _ _ _ ih (hl.keeps hr ht fun c w hw => h1 m H' c w hd hw)

theorem interf_agree (h : S.spec.Interf H db n db' n') : Agree H db db' :=
  interf_keeps (Agree.refl H) (fun _ _ _ => Agree.trans) (fun _ _ _ _ hd hw => hw.agree hd) h

theorem interf_grow (h : S.spec.Interf H db n db' n') : Grow db db' :=
  interf_keeps Grow.refl (fun _ _ _ => Grow.trans) (fun _ _ _ _ _ hw => hw.grow) h

theorem interf_steady {who : Investor} (hl : ledgerLock S.hashtext who ∈ H)
    (h : S.spec.Interf H db n db' n') : Steady who db db' :=
  interf_keeps (Steady.refl who) (fun _ _ _ => Steady.trans)
    (fun _ _ _ _ hd hw => hw.steady (Set.disjoint_left.1 hd hl)) h

theorem legalAll_interf (ht : LegalAll S.hashtext n H db ws) (h : S.spec.Interf H db n db' n') :
    LegalAll S.hashtext n' H db' ws :=
  (ht.of_agree (interf_agree h)).mono h.le subset_rfl

end Setting

/-- What a session under the investor's ledger lock may find later. -/
structure Later (who : Investor) (db db' : Db) : Prop where
  grow : Grow db db'
  steady : Steady who db db'

theorem Later.refl (who : Investor) (db : Db) : Later who db db := ⟨.refl db, .refl who db⟩

theorem Later.trans {who : Investor} {a b c : Db} (h : Later who a b) (h' : Later who b c) :
    Later who a c := ⟨h.grow.trans h'.grow, h.steady.trans h'.steady⟩

namespace Setting

variable {S : Setting} {q : Request} {H : Set Lock} {ws : List Write} {db : Db} {n : ℕ} {p : Prog}
  {who : Investor} {hit : Db → Bool} {a : Answer}

theorem interf_later {db' : Db} {n' : ℕ} (hl : ledgerLock S.hashtext who ∈ H)
    (h : S.spec.Interf H db n db' n') : Later who db db' := ⟨interf_grow h, interf_steady hl h⟩

/-! ### Rules for statements -/

theorem ok_attempt {α : Type} {x : Except String α} {k : α → Prog}
    (h : ∀ a, x = .ok a → S.Ok q (k a) H ws db n) : S.Ok q (attempt x k) H ws db n := by
  cases hx : x with
  | error e => trivial
  | ok a => exact h a hx

theorem ok_ite {c : Prop} [Decidable c] {p' : Prog} (h : c → S.Ok q p H ws db n)
    (h' : ¬ c → S.Ok q p' H ws db n) : S.Ok q (if c then p else p') H ws db n := by
  split_ifs with hc
  · exact h hc
  · exact h' hc

/-- A check that ends the request when it fails. -/
theorem ok_unless {c : Prop} [Decidable c] {status : ℕ} {detail : String} (h : ¬ c → S.Ok q p H ws db n) :
    S.Ok q (if c then refuse status detail else p) H ws db n :=
  ok_ite (fun _ => trivial) h

theorem ok_unlessRollback {c : Prop} [Decidable c] {status : ℕ} {detail : String} (h : ¬ c → S.Ok q p H ws db n) :
    S.Ok q (if c then rollback status detail else p) H ws db n :=
  ok_ite (fun _ => trivial) h

theorem ok_requireMpin {mpin : Option Answer} (h : S.Ok q p H ws db n) :
    S.Ok q (requireMpin mpin p) H ws db n := by
  cases mpin with
  | none => exact h
  | some a => trivial

theorem ok_requireInvestor (h : ∀ db n, S.Ok q p H ws db n) :
    S.Ok q (requireInvestor who p) H ws db n := by
  intro db' n' _
  exact ok_ite (fun _ => h db' n') fun _ => trivial

/-- A guarded `UPDATE` outside a transaction is one action. -/
theorem ok_updateRowAuto {w : Db → Write} {l : Lock} {b : Answer}
    (h : ∀ db m, hit db = true →
      (w db).Legal S.hashtext m {l} db ∧ Kind S.own db [w db]) :
    S.Ok q (updateRowAuto hit w l (.done a) (.done b)) H ws db n := by
  intro db' n' _
  by_cases hh : hit db' = true
  · simp only [hh, if_true]
    refine ⟨.single ⟨[w db'], ⟨?_, trivial⟩, (h db' (n' + 1) hh).2, rfl⟩, trivial⟩
    exact (h db' (n' + 1) hh).1.mono le_rfl (by simp)
  · simp only [hh]
    exact ⟨.refl, trivial⟩

section

variable (hl : ledgerLock S.hashtext who ∈ H)
include hl

/-- A guarded `UPDATE` as the first write of a transaction. -/
theorem ok_updateRow {w : Write} {l : Lock} {p' : Prog}
    (hw : ∀ db', Later who db db' → hit db' = true →
      ∀ m, w.Legal S.hashtext m (H ∪ {l}) db')
    (hp : ∀ db' n', Later who db db' → hit db' = true →
      LegalAll S.hashtext n' (H ∪ {l}) db' [w] → S.Ok q p (H ∪ {l}) [w] db' n')
    (hn : ∀ H ws db n, S.Ok q p' H ws db n) : S.Ok q (updateRow hit w l p p') H [] db n := by
  intro db' n' hi
  have hlater := interf_later hl hi
  by_cases hh : hit db' = true
  · have hh' : hit (ReadCommitted.view Db.put [] db') = true := hh
    simp only [hh', if_true]
    have hset : { x | x ∈ [l] } = ({l} : Set Lock) := by ext; simp
    rw [hset]
    exact hp db' (n' + 1) hlater hh ⟨hw db' hlater hh _, trivial⟩
  · have hh' : ¬ hit (ReadCommitted.view Db.put [] db') = true := hh
    simp only [hh']
    exact hn _ _ _ _

section

variable (ht : LegalAll S.hashtext n H db ws)
include ht

/-- The end of a transaction. -/
theorem ok_commitAct
    (hb : ∀ db' m, Later who db db' → LegalAll S.hashtext m H db' ws →
      ReflTransGen (S.Commit m H) db' (view ws db')) :
    S.Ok q (.commit (.done a)) H ws db n := by
  intro db' n' hi
  exact ⟨hb db' n' (interf_later hl hi) (legalAll_interf ht hi), trivial⟩

theorem ok_commit
    (hk : ∀ db' m, Later who db db' → LegalAll S.hashtext m H db' ws → Kind S.own db' ws) :
    S.Ok q (.commit (.done a)) H ws db n :=
  ok_commitAct hl ht fun db' m hlater hleg => .single ⟨ws, hleg, hk db' m hlater hleg, rfl⟩

/-- An `INSERT` or another write of a fresh row, with the rest of the transaction after it. -/
theorem ok_insert {w : ℕ → Write} {ls : ℕ → List Lock} {k : ℕ → Prog}
    (hw : ∀ db' m, Later who db db' → LegalAll S.hashtext m H db' ws → Below m (view ws db') →
      (w m).Legal S.hashtext (m + 1) (H ∪ { l | l ∈ ls m }) (view ws db'))
    (hk : ∀ db' m H', H ⊆ H' → (∀ l ∈ ls m, l ∈ H') → Later who db db' →
      LegalAll S.hashtext (m + 1) H' db' (ws ++ [w m]) →
      S.Ok q (k m) H' (ws ++ [w m]) db' (m + 1)) :
    S.Ok q (.exec (fun _ id => ⟨[w id], ls id⟩) (fun _ id => k id)) H ws db n := by
  intro db' n' hi
  have hlater := interf_later hl hi
  have hleg := legalAll_interf ht hi
  have hsub : H ⊆ H ∪ { l | l ∈ ls n' } := Set.subset_union_left
  refine hk db' n' _ hsub (fun l hm => .inr hm) hlater ?_
  exact (hleg.mono (Nat.le_succ _) hsub).snoc (hw db' n' hlater hleg (hleg.below hi.inv.1))

end

/-- The `available` figure: a lower bound of what stays available under the ledger lock. -/
theorem ok_walletAvailable {w : Wallet} {k : ℤ → Prog}
    (hk : ∀ db' n' avail, Later who db db' → avail ≤ db'.available who w →
      S.Ok q (k avail) H [] db' n') :
    S.Ok q (walletAvailable who w k) H [] db n := by
  intro db₁ n₁ h₁ db₂ n₂ h₂ db₃ n₃ h₃
  have s₂ := interf_steady hl h₂
  have s₃ := interf_steady hl h₃
  have hlater := (interf_later hl h₁).trans ((interf_later hl h₂).trans (interf_later hl h₃))
  refine hk db₃ n₃ _ hlater ?_
  show available (db₁.walletBalances who w)
    (holds (db₂.openWithdrawals who) (db₃.openTransfers who) w) ≤ db₃.available who w
  rw [available_eq, walletBalances_eq, holds_open_eq]
  have hb := (s₂.trans s₃).balance w
  have hw := s₃.withdrawalHold w
  unfold Db.available
  omega

/-- `settle` of a request that has no row yet writes the row. -/
theorem ok_settle {w : Wallet} {amount : ℤ} {ne : amount ≠ 0} {kind : EntryKind}
    {ref : RefTable × ℕ} {k : Bool → Prog}
    (ht : LegalAll S.hashtext n H db ws)
    (hs : ∀ db' m, Later who db db' → Exact db' → LegalAll S.hashtext m H db' ws →
      (view ws db').settled ref w = false)
    (hk : ∀ id db' n' H', H ⊆ H' → Later who db db' →
      LegalAll S.hashtext n' H' db' (ws ++ [.entry ⟨id, who, w, amount, kind, some ref, ne⟩]) →
      S.Ok q (k true) H' (ws ++ [.entry ⟨id, who, w, amount, kind, some ref, ne⟩]) db' n') :
    S.Ok q (settle who w amount ne kind ref k) H ws db n := by
  intro db' n' hi
  have hlater := interf_later hl hi
  have hleg := legalAll_interf ht hi
  have hset : Db.settled (ReadCommitted.view Db.put ws db') ref w = false :=
    hs db' n' hlater hi.inv.2 hleg
  simp only [hset, Bool.not_false]
  refine hk n' db' (n' + 1) _ Set.subset_union_left hlater ?_
  refine (hleg.mono (Nat.le_succ _) Set.subset_union_left).snoc ?_
  refine ⟨Nat.lt_succ_self _, .inr (by simp), ?_, .inl hl⟩
  exact find_fresh (hleg.below hi.inv.1).entries

end

/-- The ledger lock, first statement of a transaction. -/
theorem ok_lockInvestorLedger
    (h : ∀ db' n' H, ledgerLock S.hashtext who ∈ H → Grow db db' →
      S.sched q (ledgerLock S.hashtext who) db' → S.Ok q p H [] db' n') :
    S.Ok q (lockInvestorLedger S.hashtext who p) ∅ [] db n := by
  intro db' n' hi hs
  rw [Set.empty_union]
  exact h db' n' _ rfl (interf_grow hi) hs

/-- The writes of a transaction that so far amount to whole actions. -/
def Base (S : Setting) (who : Investor) (H : Set Lock) (ws : List Write) (db : Db) : Prop :=
  ∀ db' m H', H ⊆ H' → Later who db db' → LegalAll S.hashtext m H' db' ws →
    ReflTransGen (S.Commit m H') db' (view ws db')

theorem Base.later {H' : Set Lock} {db' : Db} (h : Base S who H ws db)
    (hH : H ⊆ H') (hl : Later who db db') : Base S who H' ws db' :=
  fun db₁ m H₁ hs hl₁ hleg => h db₁ m H₁ (hH.trans hs) (hl.trans hl₁) hleg

theorem base_nil : Base S who H [] db := fun _ _ _ _ _ _ => .refl

theorem exact_of_commits {m : ℕ} {db' : Db} (h : Exact db)
    (hr : ReflTransGen (S.Commit m H) db db') : Exact db' := by
  induction hr with
  | refl => exact h
  | tail _ hc ih =>
    obtain ⟨ws, hl, hk, rfl⟩ := hc
    exact ih.keeps hl hk

/-- `pay_bonus` and the commit after it: the bonus and its entry are an action of their own. -/
theorem ok_payBonus {source : BonusSource} {amount : ℤ} {sid : Option ℕ}
    (hl : ledgerLock S.hashtext who ∈ H) (ht : LegalAll S.hashtext n H db ws)
    (hb : Base S who H ws db)
    (ha : amount < 0 → ∀ db', Later who db db' → -amount ≤ (view ws db').available who .credit) :
    S.Ok q (payBonus who source amount sid fun _ => .commit (.done .ok)) H ws db n := by
  have hcommit : ∀ db' n' H', H ⊆ H' → Later who db db' → LegalAll S.hashtext n' H' db' ws →
      S.Ok q (.commit (.done .ok)) H' ws db' n' := fun db' n' H' hH hlater hleg =>
    ok_commitAct (hH hl) hleg fun db₁ m hl₁ hleg₁ => hb db₁ m H' hH (hlater.trans hl₁) hleg₁
  unfold payBonus
  split_ifs with h0 hc
  · exact hcommit db n H subset_rfl (Later.refl who db) ht
  · intro db' n' hi
    have hlater := interf_later hl hi
    have hleg := legalAll_interf ht hi
    have hsub {ls : List Lock} : H ⊆ H ∪ { l | l ∈ ls } := Set.subset_union_left
    by_cases hk : Db.bonusTaken (ReadCommitted.view Db.put ws db') who source sid = true
    · -- the rule has paid before: nothing is written
      simp only [hk, if_true, List.append_nil]
      exact hcommit db' (n' + 1) _ hsub hlater (hleg.mono (Nat.le_succ _) hsub)
    · rw [Bool.not_eq_true] at hk
      simp only [hk, Bool.false_eq_true, if_false]
      set b : Bonus := ⟨n', who, source, sid, amount, h0, hc.1, hc.2⟩ with hbdef
      have hfresh : (view ws db').bonuses.find b.id = none :=
        find_fresh (hleg.below hi.inv.1).bonuses
      have hleg' := (hleg.mono (Nat.le_succ _) hsub).snoc
        (w := .bonus b) (H := H ∪ { l | l ∈ .bonusRow n' :: bonusKey who source sid })
        ⟨Nat.lt_succ_self _, .inr (by simp [b]), hfresh⟩
      refine ok_settle (.inl hl) hleg' (fun db₁ m hl₁ hx hleg₁ => ?_)
        fun id db₁ n₁ H₁ hH₁ hl₁ hleg₁ => ?_
      · obtain ⟨hw, hbl⟩ := LegalAll.append.1 hleg₁
        have hx' : Exact (view ws db₁) :=
          exact_of_commits hx (hb db₁ m _ hsub (hlater.trans hl₁) hw)
        rw [view_append]
        refine hx'.not_settled ?_
        rintro ⟨b', hf⟩
        cases hbl.1.2.2.symm.trans hf
      · refine ok_commitAct (hH₁ (.inl hl)) hleg₁ fun db₂ m hl₂ hleg₂ => ?_
        rw [List.append_assoc] at hleg₂ ⊢
        obtain ⟨hw, hbl⟩ := LegalAll.append.1 hleg₂
        have hl' : Later who db db₂ := hlater.trans (hl₁.trans hl₂)
        rw [view_append]
        refine (hb db₂ m H₁ (hsub.trans hH₁) hl' hw).tail ⟨_, hbl, ?_, rfl⟩
        exact .payBonus b _ rfl fun hneg => ha hneg db₂ hl'
  · trivial

end Setting

end Portal
