import CopyTrading.Mt5.Exchange

/-!
# Mt5.Books — what a report books, statement by statement

Each statement of a report writes single rows, so a relation that every one of them keeps relates a row before the
report to the row after it (`Follows`, `Rewrites`).  An outcome or a deal writes mappings, or is a fill whose
requests are queued (`Books`); what these keep, the booking of a report keeps (`booked_rel`).
-/

namespace Copier.Mt5

open List Option Server

/-! ### What a statement may do to a mapping -/

/-- The rows are rewritten in their places, each related to what it was. -/
def Rewrites (R : Mapping → Mapping → Prop) (ms ms' : Mappings) : Prop :=
  List.Forall₂ (fun m m' => m'.clientOrderId = m.clientOrderId ∧ R m m') ms.rows ms'.rows

/-- A relation between a row and a later one that every statement of a report of the account keeps. -/
structure Follows (account : ℕ) (R : Mapping → Mapping → Prop) : Prop where
  refl : ∀ m, R m m
  trans : ∀ m₁ m₂ m₃, R m₁ m₂ → R m₂ m₃ → R m₁ m₃
  accumulate : ∀ (m : Mapping) π v, m.slaveAccountId = account → R m (m.accumulate π v)
  reduce : ∀ (m : Mapping) k, m.slaveAccountId = account → m.status = .active → R m (m.reduce k)
  fill : ∀ (m : Mapping) π v, m.slaveAccountId = account → R m { m with held := some ⟨π, v⟩, status := .active }
  accept : ∀ (m : Mapping) ω, m.slaveAccountId = account → R m { m with slaveOrderId := ω, status := .active }
  close : ∀ m : Mapping, m.slaveAccountId = account → R m { m with status := .closed }
  fail : ∀ m : Mapping, m.slaveAccountId = account → R m { m with status := .failed }

section Rewrites

variable {R : Mapping → Mapping → Prop} {account : ℕ} {ms ms' ms'' : Mappings} {c : ClientOrderId}
  {m : Mapping} {P : Mapping → Bool} {f : Mapping → Mapping}

theorem Rewrites.refl (h : ∀ m, R m m) (ms : Mappings) : Rewrites R ms ms :=
  forall₂_same.2 fun m _ => ⟨rfl, h m⟩

theorem Rewrites.trans (ht : ∀ m₁ m₂ m₃, R m₁ m₂ → R m₂ m₃ → R m₁ m₃) (h : Rewrites R ms ms')
    (h' : Rewrites R ms' ms'') : Rewrites R ms ms'' := by
  unfold Rewrites at *
  generalize ms.rows = l, ms'.rows = l', ms''.rows = l'' at h h'
  induction h generalizing l'' with
  | nil => exact h'
  | cons hm _ ih =>
    cases h' with
    | cons hm' h' => exact .cons ⟨hm'.1.trans hm.1, ht _ _ _ hm.2 hm'.2⟩ (ih _ h')

theorem Rewrites.keys (h : Rewrites R ms ms') :
    ms'.rows.map Mapping.clientOrderId = ms.rows.map Mapping.clientOrderId := by
  unfold Rewrites at h
  generalize ms.rows = l, ms'.rows = l' at h
  induction h with
  | nil => rfl
  | cons hm _ ih => rw [map_cons, map_cons, hm.1, ih]

theorem Rewrites.mem (h : Rewrites R ms ms') (hm : m ∈ ms.rows) :
    ∃ m' ∈ ms'.rows, m'.clientOrderId = m.clientOrderId ∧ R m m' := by
  unfold Rewrites at h
  generalize ms.rows = l, ms'.rows = l' at h hm
  induction h with
  | nil => cases hm
  | cons hr _ ih =>
    rcases mem_cons.1 hm with rfl | hm
    · exact ⟨_, mem_cons_self, hr⟩
    · obtain ⟨m', hm', hr'⟩ := ih hm
      exact ⟨m', mem_cons_of_mem _ hm', hr'⟩

theorem rewrites_updateWhere {hf : ∀ m, (f m).clientOrderId = m.clientOrderId} (hr : ∀ m, R m m)
    (h : ∀ m, P m = true → R m (f m)) (ms : Mappings) : Rewrites R ms (updateWhere P f hf ms) := by
  unfold Rewrites updateWhere
  rw [Table.update_rows, forall₂_map_right_iff]
  refine forall₂_same.2 fun m _ => ?_
  split_ifs with hP
  · exact ⟨hf m, h m hP⟩
  · exact ⟨rfl, hr m⟩

theorem rewrites_updateFound
    {hf : ∀ m, (f m).clientOrderId = m.clientOrderId} (hr : ∀ m, R m m) (h : ∀ m, P m = true → R m (f m))
    (ms : Mappings) : Rewrites R ms ((updateFound P f hf ms).getD ms) := by
  unfold updateFound
  split_ifs
  · show Rewrites R ms (updateWhere P f hf ms)
    exact rewrites_updateWhere hr h ms
  · exact .refl hr ms

/-- The shared net position's rows are reduced, the others kept. -/
theorem rewrites_reduceFifo (hR : Follows account R) (position volume : ℕ) (ms : Mappings) :
    Rewrites R ms (Server.reduceFifo account position volume ms) := by
  have hrows : ∀ (rows : List Mapping) (n : ℕ), Forall₂ (fun m m' => m'.clientOrderId = m.clientOrderId ∧ R m m')
      rows (consumeShared account position n rows) := by
    intro rows
    unfold consumeShared
    induction rows with
    | nil => exact fun _ => .nil
    | cons m rows ih =>
      intro n
      rcases Fifo.consume_cons (shared account position) (fun m k => some (m.reduce k)) m rows n with
        ⟨-, he⟩ | ⟨hk, he⟩
      · rw [he]
        exact .cons ⟨rfl, hR.refl m⟩ (ih n)
      · have hshared : m.slaveAccountId = account ∧ m.slavePositionId = some position ∧ m.status = .active := by
          by_contra hno
          exact hk (by simp [shared, hno])
        rw [he]
        exact .cons ⟨rfl, hR.reduce m _ hshared.1 hshared.2.2⟩ (ih _)
  have hrev := forall₂_reverse_iff.2 (hrows ms.rows.reverse volume)
  rwa [reverse_reverse] at hrev

theorem Mapping.isCopy_account (h : m.isCopy account c = true) : m.slaveAccountId = account := by
  simp only [Mapping.isCopy, Bool.and_eq_true, decide_eq_true_eq] at h
  exact h.2

theorem Mapping.isOrder_account {ω : Option ℕ} (h : m.isOrder account ω = true) :
    m.slaveAccountId = account := by
  simp only [Mapping.isOrder, Bool.and_eq_true, decide_eq_true_eq] at h
  exact h.1.1.1

theorem Mapping.isReduced_account {π : ℕ} {c : Option ClientOrderId}
    (h : m.isReduced account π c = true) : m.slaveAccountId = account ∧ m.status = .active := by
  simp only [Mapping.isReduced, Bool.and_eq_true, decide_eq_true_eq] at h
  exact h.1

theorem rewrites_handleSlaveFill (hR : Follows account R) (gates : Org) (fill : SlaveFill) (st : Service) :
    Rewrites R st.mappings (st.handleSlaveFill gates account fill).1.mappings := by
  cases hk : fill.closedVolume with
  | some k =>
    rw [handleSlaveFill_close hk]
    refine rewrites_updateWhere hR.refl (fun m hm => ?_) _
    exact hR.reduce m k (Mapping.isReduced_account hm).1 (Mapping.isReduced_account hm).2
  | none =>
    cases hp : fill.pinned with
    | some c =>
      rw [handleSlaveFill_market hk hp]
      refine rewrites_updateFound hR.refl (fun m hm => ?_) _
      exact hR.accumulate m _ _ (Mapping.isCopy_account hm)
    | none =>
      rw [handleSlaveFill_pending hk hp]
      refine rewrites_updateFound hR.refl (fun m hm => ?_) _
      exact hR.fill m _ _ (Mapping.isOrder_account hm)

end Rewrites

/-! ### Reports -/

namespace Server

/-- What an outcome or a deal of a report of the account does: it writes mappings, or is a fill. -/
inductive Books (cfg : ServerConfig) (gates : Org) (now : ℚ) (account : ℕ) (s : Server) : Server → Prop
  | writes (st : Service) (f : ℕ → List ℕ) (h : ∀ R, Follows account R →
    Rewrites R s.service.mappings st.mappings) :
    Books cfg gates now account s { s with service := st, settled := f }
  | fill (fill : SlaveFill) :
    Books cfg gates now account s (s.send cfg now (s.service.handleSlaveFill gates account fill))

variable {cfg : ServerConfig} {gates : Org} {now : ℚ} {account : ℕ} {report : FollowerReport} {s s' : Server}

theorem Books.refl : Books cfg gates now account s s := .writes s.service s.settled fun _ hR => .refl hR.refl _

theorem books_applyOutcome (o : AckOutcome) :
    Books cfg gates now account s (s.applyOutcome cfg gates now account report o) := by
  unfold applyOutcome
  by_cases hok : o.ok = false
  · rw [if_pos hok]
    simp only [Service.handleSlaveRejection]
    split
    · refine .writes _ _ fun R hR => rewrites_updateFound hR.refl (fun m hm => ?_) _
      exact hR.fail m (Mapping.isCopy_account hm)
    · exact .refl
  · rw [if_neg hok]
    cases o.kind with
    | openMarket =>
      simp only
      split
      · exact .refl
      · exact .fill _
    | closePosition =>
      simp only
      split_ifs
      · exact .fill _
      · exact .refl
    | placePending =>
      simp only [accept]
      split
      · refine .writes _ _ fun R hR => rewrites_updateFound hR.refl (fun m hm => ?_) _
        exact hR.accept m _ (Mapping.isCopy_account hm)
      · exact .refl
    | cancelPending =>
      simp only
      split
      · refine .writes _ _ fun R hR => rewrites_updateFound hR.refl (fun m hm => ?_) _
        exact hR.close m (Mapping.isOrder_account hm)
      · exact .refl
    | amend | amendPending => exact .refl

theorem books_bookDeal (known acked : List ℕ) (d : ReportDeal) :
    Books cfg gates now account s (s.bookDeal cfg gates now account report known acked d) := by
  unfold bookDeal
  split_ifs <;>
    first
    | exact .refl
    | exact .fill _
    | exact .writes _ _ fun R hR => .refl hR.refl _
    | exact .writes _ _ fun R hR => rewrites_reduceFifo hR _ _ _

variable (cfg gates now account s report) in
/-- A report is booked before commands are delivered. -/
def booked : Server :=
  (s.settle cfg gates now account report).ingest cfg gates now account report
    (applyAcks account s.rows report.acks).2

theorem sync_booked : s.sync cfg gates now account report =
    (s.booked cfg gates now account report).deliver now account := rfl

section Relation

variable {R : Server → Server → Prop} (hr : ∀ s, R s s) (ht : ∀ {s₁ s₂ s₃}, R s₁ s₂ → R s₂ s₃ → R s₁ s₃)
  (hb : ∀ {s s'}, Books cfg gates now account s s' → R s s')

include hr ht hb

theorem outcomes_rel (os : List AckOutcome) (s : Server) :
    R s (os.foldl (fun s o => s.applyOutcome cfg gates now account report o) s) :=
  foldlRecOn os _ (hr s) fun _ h o _ => ht h (hb (books_applyOutcome o))

omit hr in
theorem ingest_rel (hw : ∀ s w f, R s { s with watermark := w, settled := f }) (os : List AckOutcome) :
    R s (s.ingest cfg gates now account report os) := by
  simp only [ingest, slaveDeals]
  split_ifs
  · exact hw s _ _
  · refine foldlRecOn _ _ ?_ fun _ h d _ => ht h (hb (books_bookDeal _ _ d))
    exact hw s _ _

/-- What every statement keeps, the booking of a report keeps. -/
theorem booked_rel (hw : ∀ s w f, R s { s with watermark := w, settled := f }) :
    R { s with rows := (applyAcks account s.rows report.acks).1 } (s.booked cfg gates now account report) := by
  have hacks : R _ (s.settle cfg gates now account report) := outcomes_rel hr ht hb _ _
  exact ht hacks (ingest_rel (R := R) ht hb hw _)

end Relation

theorem Books.rewrites {R : Mapping → Mapping → Prop} (hR : Follows account R)
    (h : Books cfg gates now account s s') :
    Rewrites R s.service.mappings s'.service.mappings := by
  cases h with
  | writes st f hst => exact hst R hR
  | fill fill => exact rewrites_handleSlaveFill hR gates fill _

theorem rewrites_booked {R : Mapping → Mapping → Prop} (hR : Follows account R) :
    Rewrites R s.service.mappings (s.booked cfg gates now account report).service.mappings :=
  booked_rel (R := fun s s' => Rewrites R s.service.mappings s'.service.mappings) (fun _ => .refl hR.refl _)
    (fun h h' => h.trans hR.trans h') (Books.rewrites hR) fun _ _ _ => .refl hR.refl _

theorem Books.watermark (h : Books cfg gates now account s s') : s'.watermark = s.watermark := by
  cases h <;> rfl

end Server

end Copier.Mt5
