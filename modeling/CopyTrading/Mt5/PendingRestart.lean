import CopyTrading.Copier.Decision
import CopyTrading.Mt5.Master

/-!
# Mt5.PendingRestart — copied pending orders and the reports after a restart

Whether a deal belongs to a copied pending is read off the previous report's book, and the first report after
a restart has none: a pending that fills there is opened at the market although its copy rests on the
followers.  Otherwise a deal of a copied order links the copies and nothing else: from the copy on, a follower
is exposed with the copy's volume and no more.
-/

namespace Copier.Mt5

open List

/-! ### Exposure -/

/-- The volume that an intent exposes a follower with. -/
def SlaveIntent.exposed : SlaveIntent → ℕ
  | .openMarket i => i.volume
  | .placePending i => i.volume
  | _ => 0

/-- The volume that the follower is exposed with for order `o`. -/
def Acted.exposed (o : ℕ) (sl : SlaveConfig) : Acted → ℕ
  | .deal d es =>
    if d.order = o then
      (es.map fun e => match e with
        | .positionOpened e => SlaveIntent.exposed (openFor e sl)
        | _ => 0).sum
    else 0
  | .diff (.pendingPlaced e) => if e.orderId = o then SlaveIntent.exposed (placeFor e sl) else 0
  | .diff _ => 0

/-- The pending order that is copied. -/
def Acted.placed : Acted → Option ℕ
  | .diff (.pendingPlaced e) => some e.orderId
  | _ => none

/-- After the copy `x` of a pending order, the order is not copied again and its deals link the copies. -/
def After (x y : Acted) : Prop :=
  ∀ o, x.placed = some o →
    y.placed ≠ some o ∧ ∀ d es, y = .deal d es → d.order = o → ∃ p, es = [.pendingFilled o p]

theorem After.exposed {x y : Acted} {o : ℕ} (h : After x y) (hx : x.placed = some o) (sl : SlaveConfig) :
    y.exposed o sl = 0 := by
  obtain ⟨hplaced, hdeal⟩ := h o hx
  cases y with
  | deal d es =>
    rw [Acted.exposed]
    split_ifs with ho
    · obtain ⟨p, rfl⟩ := hdeal d es rfl ho
      rfl
    · rfl
  | diff e =>
    cases e with
    | pendingPlaced e => exact if_neg fun ho => hplaced (congrArg some ho)
    | _ => rfl

/-! ### What a report copies -/

section Placed

variable {names : Names} {report : SyncReport}

theorem placed_orderEvent (prevOrders : List OrderSnapshot) (o : ReportOrder) :
    ((orderEvent names prevOrders o).map Acted.diff).filterMap Acted.placed =
      if o.ticket ∈ prevOrders.map OrderSnapshot.orderId then [] else [o.ticket] := by
  unfold orderEvent
  cases h : lookup OrderSnapshot.orderId prevOrders o.ticket with
  | none =>
    have hn : o.ticket ∉ prevOrders.map OrderSnapshot.orderId := by simp [← isSome_lookup, h]
    rw [if_neg hn]
    rfl
  | some prev =>
    have hs : o.ticket ∈ prevOrders.map OrderSnapshot.orderId := by simp [← isSome_lookup, h]
    rw [if_pos hs]
    dsimp only
    split_ifs <;> rfl

/-- **The orders a report copies**: those in its book and not in the previous one, each once. -/
theorem placed_diffEvents (names : Names) (report : SyncReport)
    (previous : Option (List PositionSnapshot × List OrderSnapshot)) (l : Option NetLedger) :
    ∃ ks : List ℕ, (((diffEvents names report previous l).2.map Acted.diff).filterMap Acted.placed) = ks ∧
      ks.Nodup ∧ ∀ o ∈ ks, o ∈ report.orders.map ReportOrder.ticket ∧
        ∃ p, previous = some p ∧ o ∉ p.2.map OrderSnapshot.orderId := by
  refine ⟨_, rfl, ?_⟩
  cases previous with
  | none => exact ⟨nodup_nil, nofun⟩
  | some p =>
    have hprot : ((protectionEvents p.1 ((keys ReportPosition.ticket report.positions).filterMap
        (lookup ReportPosition.ticket report.positions)) l).2.map Acted.diff).filterMap Acted.placed = [] := by
      refine filterMap_eq_nil_iff.2 fun x hx => ?_
      obtain ⟨e, he, rfl⟩ := mem_map.1 hx
      obtain ⟨a, rfl⟩ := protectionEvents_amend _ _ _ e he
      rfl
    have hcancel : ((cancelEvents report p.2).map Acted.diff).filterMap Acted.placed = [] := by
      refine filterMap_eq_nil_iff.2 fun x hx => ?_
      obtain ⟨e, he, rfl⟩ := mem_map.1 hx
      obtain ⟨o, -, rfl⟩ := mem_map.1 he
      rfl
    set orders := (keys ReportOrder.ticket report.orders).filterMap (lookup ReportOrder.ticket report.orders)
    have horders : ((orders.flatMap (orderEvent names p.2)).map Acted.diff).filterMap Acted.placed =
        (orders.map ReportOrder.ticket).filter fun o => o ∉ p.2.map OrderSnapshot.orderId := by
      generalize orders = os
      induction os with
      | nil => rfl
      | cons o os ih =>
        rw [flatMap_cons, map_append, filterMap_append, placed_orderEvent, ih, map_cons,
          filter_cons]
        split_ifs <;> simp_all
    have hks : (((diffEvents names report (some p) l).2.map Acted.diff).filterMap Acted.placed) =
        (orders.map ReportOrder.ticket).filter fun o => o ∉ p.2.map OrderSnapshot.orderId := by
      show (((_ ++ (_ ++ _) : List MasterEvent).map Acted.diff).filterMap Acted.placed) = _
      rw [map_append, map_append, filterMap_append, filterMap_append, hprot, hcancel, horders,
        append_nil, nil_append]
    have hsub : (orders.map ReportOrder.ticket).Sublist (keys ReportOrder.ticket report.orders) :=
      map_lookup_sublist _
    rw [hks]
    refine ⟨(filter_sublist.trans hsub).nodup keys_nodup, fun o ho => ?_⟩
    obtain ⟨hm, hn⟩ := mem_filter.1 ho
    exact ⟨mem_keys.1 (hsub.subset hm), p, rfl, by simpa using hn⟩

end Placed

namespace MasterDesk

section Copies

variable {cfg : MasterConfig} {s s' : MasterDesk} {deals : List ReportDeal} {o : ℕ} {d : ReportDeal}
  {xs : List Acted} {a : MasterAction}

/-- The order has been copied as a pending. -/
def Copied (s : MasterDesk) (o : ℕ) : Prop := o ∈ s.disk.log.filterMap Acted.placed

instance (s : MasterDesk) (o : ℕ) : Decidable (s.Copied o) := inferInstanceAs (Decidable (_ ∈ _))

/-- What keeps the copies of pending orders linked: the first report after a restart has no deal of a copied
order; copied orders fill as `IN` deals; a report leaves a deal of a copied order out only while the order is
in the book; and a crash in a report with such a deal does not come between the watermark and the deals. -/
def KeepsLinks : MasterAction → MasterDesk → Prop
  | .sync deals cut, s =>
    (s.previous = none → ∀ d ∈ s.fresh deals, ¬ s.Copied d.order) ∧
      (∀ d ∈ s.fresh deals, s.Copied d.order → d.dealType.side.isSome ∧ d.entry = .entryIn) ∧
      (∀ d ∈ s.unseen, d ∉ s.fresh deals → s.Copied d.order → d.order ∈ s.orders.map ReportOrder.ticket) ∧
      ∀ k ∈ cut, (∃ d ∈ s.fresh deals, s.Copied d.order) → k ≤ 1 ∨ 2 + (s.fresh deals).length ≤ k
  | _, _ => True

instance (a : MasterAction) (s : MasterDesk) : Decidable (KeepsLinks a s) := by
  unfold KeepsLinks
  split <;> infer_instance

/-- The book, the previous book and the copies. -/
structure Linked (s : MasterDesk) : Prop where
  timely : s.Timely
  book : ∀ o ∈ s.orders.map ReportOrder.ticket, o ∈ s.pendings
  copied : ∀ o, s.Copied o → o ∈ s.pendings
  known : ∀ p, s.previous = some p → ∀ o, s.Copied o →
    (o ∈ s.orders.map ReportOrder.ticket ∨ ∃ d ∈ s.unseen, d.order = o) → o ∈ p.2.map OrderSnapshot.orderId
  log : s.disk.log.Pairwise After

theorem linked_init : init.Linked where
  timely := timely_init
  book := nofun
  copied := nofun
  known := nofun
  log := Pairwise.nil

/-- A deal's entry in the log. -/
theorem deal_of_mem_acts {es : List MasterEvent} (h : .deal d es ∈ s.acts cfg deals) :
    d ∈ s.fresh deals ∧
      ∃ l, es = (dealStep cfg.names (s.freshReport deals) (knownOrders s.previous) d l).2 := by
  rcases mem_append.1 h with h | h
  · obtain ⟨x, hx, heq⟩ := mem_map.1 h
    cases heq
    obtain ⟨hd, l, -, hes⟩ := exists_of_mem_trace hx
    exact ⟨hd, l, hes⟩
  · obtain ⟨e, -, heq⟩ := mem_map.1 h
    cases heq

theorem placed_acts (cfg : MasterConfig) (s : MasterDesk) (deals : List ReportDeal) :
    (s.acts cfg deals).filterMap Acted.placed =
      ((s.diff cfg deals).2.map Acted.diff).filterMap Acted.placed := by
  have hnone : ((s.trace cfg deals).map fun x => Acted.deal x.1 x.2).filterMap Acted.placed = [] := by
    refine filterMap_eq_nil_iff.2 fun x hx => ?_
    obtain ⟨y, -, rfl⟩ := mem_map.1 hx
    rfl
  rw [acts, filterMap_append, hnone, nil_append]

theorem Linked.mem_known (h : s.Linked) {p : List PositionSnapshot × List OrderSnapshot}
    (hp : s.previous = some p) (hc : s.Copied o)
    (ho : o ∈ s.orders.map ReportOrder.ticket ∨ ∃ d ∈ s.unseen, d.order = o) :
    (lookup OrderSnapshot.orderId (knownOrders s.previous) o).isSome := by
  rw [hp, isSome_lookup]
  exact h.known p hp o hc ho

/-- What a report does comes after what was done before, and after itself. -/
theorem Linked.acts {cut : Option ℕ} (cfg : MasterConfig) (h : s.Linked) (hp : s.fresh deals <+: s.unseen)
    (hk : KeepsLinks (.sync deals cut) s) :
    (s.disk.log ++ s.acts cfg deals).Pairwise After ∧
      ∀ o ∈ (s.acts cfg deals).filterMap Acted.placed, o ∈ s.orders.map ReportOrder.ticket := by
  obtain ⟨hrestart, hin, -, -⟩ := hk
  obtain ⟨ks, hks, hnodup, hnew⟩ := placed_diffEvents cfg.names (s.freshReport deals) s.previous
    (s.afterDeals cfg deals)
  have hplaced : (s.acts cfg deals).filterMap Acted.placed = ks := (placed_acts cfg s deals).trans hks
  refine ⟨pairwise_append.2 ⟨h.log, pairwise_append.2 ⟨?_, ?_, ?_⟩, ?_⟩, ?_⟩
  · -- the deals of the report copy nothing
    refine pairwise_map.2 (pairwise_of_forall fun x y o hx => ?_)
    cases hx
  · -- the books: each order is copied once
    rw [← hks] at hnodup
    refine (pairwise_filterMap.1 hnodup).imp_of_mem ?_
    intro x y _ hy hxy o hx
    obtain ⟨e, -, rfl⟩ := mem_map.1 hy
    exact ⟨fun hy => hxy o hx o hy rfl, nofun⟩
  · intro x hx y _ o hxo
    obtain ⟨z, -, rfl⟩ := mem_map.1 hx
    cases hxo
  · intro x hx y hy o hxo
    have hcopied : s.Copied o := mem_filterMap.2 ⟨x, hx, hxo⟩
    constructor
    · intro hyo
      obtain ⟨hbook, p, hprev, hn⟩ := hnew o (hplaced ▸ mem_filterMap.2 ⟨y, hy, hyo⟩)
      exact hn (h.known p hprev o hcopied (.inl hbook))
    · rintro d es rfl rfl
      obtain ⟨hd, l, rfl⟩ := deal_of_mem_acts hy
      obtain ⟨hside, hentry⟩ := hin d hd hcopied
      cases hprev : s.previous with
      | none => exact absurd hcopied (hrestart hprev d hd)
      | some p =>
        have hlookup := h.mem_known hprev hcopied (.inr ⟨d, hp.subset hd, rfl⟩)
        rw [hprev] at hlookup
        exact ⟨_, dealStep_linked hside hentry hlookup⟩
  · exact fun o ho => (hnew o (hplaced ▸ ho)).1

/-- A report's log, or a first part of it. -/
theorem Linked.of_log (h : s.Linked) (ht : s'.Timely) (hbook : s'.orders = s.orders)
    (hpend : s'.pendings = s.pendings) (hlog : s'.disk.log = s.disk.log ++ xs)
    (hpair : (s.disk.log ++ xs).Pairwise After)
    (hplaced : ∀ o ∈ xs.filterMap Acted.placed, o ∈ s.orders.map ReportOrder.ticket)
    (hknown : ∀ p, s'.previous = some p → ∀ o, (s.Copied o ∨ o ∈ s.orders.map ReportOrder.ticket) →
      (o ∈ s.orders.map ReportOrder.ticket ∨ ∃ d ∈ s'.unseen, d.order = o) →
      o ∈ p.2.map OrderSnapshot.orderId) : s'.Linked := by
  have hcopied : ∀ o, s'.Copied o → s.Copied o ∨ o ∈ s.orders.map ReportOrder.ticket := by
    intro o ho
    rw [Copied, hlog, filterMap_append] at ho
    exact (mem_append.1 ho).imp_right (hplaced o)
  constructor
  case timely => exact ht
  case book =>
    rw [hbook, hpend]
    exact h.book
  case copied =>
    intro o ho
    rw [hpend]
    exact (hcopied o ho).elim (h.copied o) (h.book o)
  case known =>
    intro p hp o ho
    rw [hbook]
    exact hknown p hp o (hcopied o ho)
  case log => rwa [hlog]

/-- What is still past the watermark was not in the report. -/
theorem unseen_of_advance (hd : d ∈ s'.unseen) (hh : s'.history = s.history)
    (hw : s.disk.watermark ≤ s'.disk.watermark) : d ∈ s.unseen := by
  obtain ⟨hm, hlt⟩ := mem_filter.1 hd
  rw [hh] at hm
  have hlt : s'.disk.watermark < d.ticket := by simpa using hlt
  exact mem_filter.2 ⟨hm, by simp; omega⟩

theorem Linked.step (ha : KeepsLinks a s) (h : s.Linked) (hf : fire cfg a s = some s') :
    s'.Linked := by
  have ht : s'.Timely := h.timely.step hf
  cases a with
  | trade d positions orders =>
    simp only [fire] at hf
    split_ifs at hf with hc
    cases hf
    obtain ⟨⟨-, hsub, -, horder⟩, -⟩ := hc
    have hmem : ∀ o ∈ orders.map ReportOrder.ticket, o ∈ s.orders.map ReportOrder.ticket := by
      intro o ho
      obtain ⟨x, hx, rfl⟩ := mem_map.1 ho
      exact hsub x hx
    refine ⟨ht, fun o ho => h.book o (hmem o ho), h.copied, ?_, h.log⟩
    rintro p hp o hc (ho | ⟨x, hx, rfl⟩)
    · exact h.known p hp o hc (.inl (hmem o ho))
    · -- a deal of a copied order is a fill of one in the book
      obtain ⟨hx, hlt⟩ := mem_filter.1 hx
      rcases mem_append.1 hx with hx | hx
      · exact h.known p hp _ hc (.inr ⟨x, mem_filter.2 ⟨hx, hlt⟩, rfl⟩)
      · obtain rfl := mem_singleton.1 hx
        exact h.known p hp _ hc (.inl (horder.resolve_right fun hn => hn (h.copied _ hc)))
  | book positions orders =>
    simp only [fire] at hf
    split_ifs at hf with hc
    cases hf
    refine ⟨ht, fun o ho => mem_append_left _ ho, fun o ho => mem_append_right _ (h.copied o ho), ?_,
      h.log⟩
    rintro p hp o hcopied (ho | ho)
    · obtain ⟨x, hx, rfl⟩ := mem_map.1 ho
      have hold := (hc.1 x hx).resolve_right fun hn => hn (h.copied _ hcopied)
      exact h.known p hp _ hcopied (.inl hold)
    · exact h.known p hp o hcopied (.inr ho)
  | sync deals cut =>
    simp only [fire] at hf
    split_ifs at hf with hp
    have hp := fresh_reported h.timely.ordered hp
    obtain ⟨hpair, hplaced⟩ := h.acts cfg hp ha
    cases cut with
    | none =>
      cases hf
      obtain ⟨ds, hdisk⟩ := disk_commits cfg s deals
      have hw : (s.handled cfg deals).disk.watermark = max s.disk.watermark (top (s.fresh deals)) :=
        congrArg Disk.watermark hdisk
      refine h.of_log ht rfl rfl (congrArg Disk.log hdisk) hpair hplaced ?_
      rintro p hprev o hc ho
      cases hprev
      have hids : (bookSnapshot s.positions s.orders).2.map OrderSnapshot.orderId =
          s.orders.map ReportOrder.ticket := map_map
      rw [hids]
      rcases ho with ho | ⟨d, hd, rfl⟩
      · exact ho
      · refine hc.elim (fun hc => ?_) id
        have hle : s.disk.watermark ≤ (s.handled cfg deals).disk.watermark := by
          rw [hw]
          exact le_max_left _ _
        have hd' : d ∈ s.unseen := unseen_of_advance hd rfl hle
        refine ha.2.2.1 d hd' (fun hfresh => ?_) hc
        have hlt := lt_of_mem_unseen hd
        have hle := top_le.1 le_rfl d hfresh
        omega
    | some k =>
      cases hf
      obtain ⟨ds, w, t, hdisk, -⟩ := disk_take cfg s deals k
      have hsub : ((s.acts cfg deals).take (k - (s.marks deals).length)).Sublist (s.acts cfg deals) :=
        take_sublist _ _
      refine h.of_log ht rfl rfl (congrArg Disk.log hdisk) ?_ ?_ fun _ hp => by cases hp
      · exact hpair.sublist ((Sublist.refl _).append hsub)
      · exact fun o ho => hplaced o ((hsub.filterMap _).subset ho)
  | restart =>
    cases hf
    exact ⟨ht, h.book, h.copied, fun _ hp => absurd hp.symm (Option.some_ne_none _), h.log⟩

/-- From `s₁` on every deal of the order is acted on. -/
structure Since (s₁ : MasterDesk) (o : ℕ) (s : MasterDesk) : Prop where
  linked : s.Linked
  acted : ∃ new, s.disk.log = s₁.disk.log ++ new ∧
    ∀ d ∈ s.history, d.order = o → s₁.disk.watermark < d.ticket → d.ticket ≤ s.disk.watermark →
      ∃ es, .deal d es ∈ new

variable {s₁ : MasterDesk}

/-- A report that moves the watermark acts on the deals of the order. -/
theorem Since.of_log (h : Since s₁ o s) (hl : s'.Linked) (hh : s'.history = s.history)
    (hlog : s'.disk.log = s.disk.log ++ xs)
    (hacted : ∀ d ∈ s.history, d.order = o → s.disk.watermark < d.ticket → d.ticket ≤ s'.disk.watermark →
      ∃ es, .deal d es ∈ xs) : Since s₁ o s' := by
  obtain ⟨new, hnew, hold⟩ := h.acted
  refine ⟨hl, new ++ xs, by rw [hlog, hnew, append_assoc], fun d hd ho hlt hle => ?_⟩
  rw [hh] at hd
  rcases Nat.lt_or_ge s.disk.watermark d.ticket with hw | hw
  · obtain ⟨es, hes⟩ := hacted d hd ho hw hle
    exact ⟨es, mem_append_right _ hes⟩
  · obtain ⟨es, hes⟩ := hold d hd ho hlt hw
    exact ⟨es, mem_append_left _ hes⟩

theorem mem_fresh_of_le (ht : s.Timely) (hp : s.fresh deals <+: s.unseen) (hd : d ∈ s.history)
    (hlt : s.disk.watermark < d.ticket) (hle : d.ticket ≤ max s.disk.watermark (top (s.fresh deals))) :
    d ∈ s.fresh deals := by
  have hrep : ({ s with disk := { s.disk with watermark := max s.disk.watermark (top (s.fresh deals)) } } :
      MasterDesk).reported = s.reported ++ s.fresh deals := reported_advance ht.ordered hp rfl rfl rfl
  have hm : d ∈ s.reported ++ s.fresh deals := by
    rw [← hrep]
    exact mem_filter.2 ⟨hd, by simpa using hle⟩
  refine (mem_append.1 hm).resolve_left fun hm => ?_
  have : d.ticket ≤ s.disk.watermark := by simpa using (mem_filter.1 hm).2
  omega

theorem Since.step (ha : KeepsLinks a s) (hc : s₁.Copied o) (h : Since s₁ o s)
    (hf : fire cfg a s = some s') : Since s₁ o s' := by
  have hl : s'.Linked := h.linked.step ha hf
  have hcopied : s.Copied o := by
    obtain ⟨new, hnew, -⟩ := h.acted
    rw [Copied, hnew, filterMap_append]
    exact mem_append_left _ hc
  cases a with
  | trade d positions orders =>
    simp only [fire] at hf
    split_ifs at hf with hc
    cases hf
    obtain ⟨new, hnew, hold⟩ := h.acted
    refine ⟨hl, new, hnew, fun x hx ho hlt hle => ?_⟩
    rcases mem_append.1 hx with hx | hx
    · exact hold x hx ho hlt hle
    · obtain rfl := mem_singleton.1 hx
      have := h.linked.timely.known x.ticket hc.1.1.1 fun y hy => (hc.1.1.2 y hy).1
      exact absurd hle (by simpa using this)
  | book positions orders =>
    simp only [fire] at hf
    split_ifs at hf
    cases hf
    exact ⟨hl, h.acted⟩
  | sync deals cut =>
    simp only [fire] at hf
    split_ifs at hf with hp
    have hp := fresh_reported h.linked.timely.ordered hp
    cases cut with
    | none =>
      cases hf
      obtain ⟨ds, hdisk⟩ := disk_commits cfg s deals
      have hw : (s.handled cfg deals).disk.watermark = max s.disk.watermark (top (s.fresh deals)) :=
        congrArg Disk.watermark hdisk
      refine h.of_log hl rfl (congrArg Disk.log hdisk) fun d hd _ hlt hle => ?_
      exact mem_acts cfg (mem_fresh_of_le h.linked.timely hp hd hlt (hw ▸ hle))
    | some k =>
      cases hf
      obtain ⟨ds, w, t, hdisk, hw, hw'⟩ := disk_take cfg s deals k
      refine h.of_log hl rfl (congrArg Disk.log hdisk) fun d hd ho hlt hle => ?_
      have hle : d.ticket ≤ w := hle.trans_eq (congrArg Disk.watermark hdisk)
      -- the watermark has moved past a deal of the order
      have hk : 1 < k := by
        by_contra hk
        rw [hw (by omega)] at hle
        omega
      have hfresh := mem_fresh_of_le h.linked.timely hp hd hlt ((hw' (.inr hk)) ▸ hle)
      have hlate := (ha.2.2.2 k rfl ⟨d, hfresh, ho ▸ hcopied⟩).resolve_left (by omega)
      rw [length_marks (ne_nil_of_mem hfresh)]
      exact mem_take_acts cfg hfresh (by omega)
  | restart =>
    cases hf
    exact ⟨hl, h.acted⟩

/-- **A copied pending is linked and not opened again.**  Once a pending order has been copied, at any point
of a run, whatever fills, reports, crashes and restarts follow: a follower is exposed for the order with the
volume of the copy, every deal of the order that was acted on links the copies, and every deal behind the
watermark has been acted on. -/
theorem pending_exposed_once {s₁ s₂ : MasterDesk} {pre post : List Acted} {e : MasterPendingPlaced}
    (h₁ : Machine.Run (fire cfg) KeepsLinks init s₁) (h₂ : Machine.Run (fire cfg) KeepsLinks s₁ s₂)
    (hcopy : s₁.disk.log = pre ++ .diff (.pendingPlaced e) :: post) :
    ∃ new, s₂.disk.log = s₁.disk.log ++ new ∧
      (∀ sl, ((.diff (.pendingPlaced e) :: (post ++ new)).map (Acted.exposed e.orderId sl)).sum =
        SlaveIntent.exposed (placeFor e sl)) ∧
      (∀ d es, .deal d es ∈ post ++ new → d.order = e.orderId → ∃ p, es = [.pendingFilled e.orderId p]) ∧
      ∀ d ∈ s₂.history, d.order = e.orderId → s₁.disk.watermark < d.ticket → d.ticket ≤ s₂.disk.watermark →
        ∃ es, .deal d es ∈ new := by
  have hl : s₁.Linked := h₁.invariant linked_init fun _ _ _ ha h hf => h.step ha hf
  have hcopied : s₁.Copied e.orderId := by
    rw [Copied, hcopy]
    simp [Acted.placed]
  have hstart : Since s₁ e.orderId s₁ :=
    ⟨hl, [], (append_nil _).symm, fun d _ _ hlt hle => absurd hle (by omega)⟩
  obtain ⟨hlinked, new, hnew, hacted⟩ : Since s₁ e.orderId s₂ :=
    h₂.invariant hstart fun _ _ _ ha h hf => h.step ha hcopied hf
  have hafter : ∀ y ∈ post ++ new, After (.diff (.pendingPlaced e)) y := by
    have hpair := hlinked.log
    rw [hnew, hcopy, append_assoc, cons_append] at hpair
    exact (pairwise_cons.1 (pairwise_append.1 hpair).2.1).1
  refine ⟨new, hnew, fun sl => ?_, fun d es hm ho => ((hafter _ hm) _ rfl).2 d es rfl ho, hacted⟩
  have hzero : ((post ++ new).map (Acted.exposed e.orderId sl)).sum = 0 :=
    sum_eq_zero fun n hn => by
      obtain ⟨y, hy, rfl⟩ := mem_map.1 hn
      exact (hafter y hy).exposed rfl sl
  rw [map_cons, sum_cons, hzero, add_zero]
  exact if_pos rfl

/-- A hedging master that trades under its own names. -/
def sampleHedging : MasterConfig := ⟨false, ⟨fun _ => none, fun _ => none⟩, fun _ => "EURUSD"⟩

/-- Buy limit 8 … -/
def sampleLimit : ReportOrder := ⟨8, "EURUSD", .buyLimit, 100, 1, .unset⟩

/-- … and its fill. -/
def sampleLimitFill : ReportDeal := ⟨2, 8, 8, "EURUSD", .buy, .entryIn, 100, 1, 2⟩

/-- The copied order, as it is reported. -/
def samplePlaced : MasterPendingPlaced := ⟨8, "EURUSD", .buy, .limit, 100, centilots, 1, .unset, none⟩

/-- The order is copied; the copier restarts and sees the order before it fills. -/
theorem pending_exposed_once_sample :
    ∃ s₁ s₂ : MasterDesk, (s₁.disk.log = [.diff (.pendingPlaced samplePlaced)] ∧ s₁.disk.watermark = 0 ∧
        sampleLimitFill ∈ s₂.history ∧ s₂.disk.watermark = 2) ∧
      ∃ new, s₂.disk.log = s₁.disk.log ++ new ∧ ∃ es, .deal sampleLimitFill es ∈ new := by
  obtain ⟨s₁, s₂, h₁, h₂, hlog, hw, hfill, hw'⟩ : ∃ s₁ s₂,
      Machine.Run (fire sampleHedging) KeepsLinks init s₁ ∧ Machine.Run (fire sampleHedging) KeepsLinks s₁ s₂ ∧
        s₁.disk.log = [.diff (.pendingPlaced samplePlaced)] ∧ s₁.disk.watermark = 0 ∧
        sampleLimitFill ∈ s₂.history ∧ s₂.disk.watermark = 2 :=
    Machine.exists_run_pair [.sync [] none, .book [] [sampleLimit], .sync [] none]
      [.restart, .sync [] none, .trade sampleLimitFill [⟨8, "EURUSD", 100, .unset⟩] [],
        .sync [sampleLimitFill] none] init (by decide)
  have hcopy : s₁.disk.log = [] ++ .diff (.pendingPlaced samplePlaced) :: [] := hlog
  obtain ⟨new, hnew, -, -, hacted⟩ := pending_exposed_once h₁ h₂ hcopy
  refine ⟨s₁, s₂, ⟨hlog, hw, hfill, hw'⟩, new, hnew, hacted sampleLimitFill hfill rfl ?_ ?_⟩
  · rw [hw]
    decide
  · rw [hw']
    decide

/-- **The first report after a restart opens a copied pending again**: limit 8 over 100 is copied, the copier
goes down, the order fills, and its deal is copied at the market; the follower is exposed with 200. -/
theorem pending_exposed_twice :
    ∃ s, Machine.Run (fire sampleHedging) (fun _ _ => True) init s ∧
      s.disk.log = [.diff (.pendingPlaced samplePlaced), .deal sampleLimitFill
        [.positionOpened ⟨8, "EURUSD", .buy, 100, centilots, .unset, some 1⟩]] ∧
      (s.disk.log.map (Acted.exposed 8 (sampleSlave 2 1))).sum = 200 :=
  Machine.exists_run [.sync [] none, .book [] [sampleLimit], .sync [] none, .restart,
      .trade sampleLimitFill [⟨8, "EURUSD", 100, .unset⟩] [], .sync [sampleLimitFill] none] init
    (by decide +kernel)

end Copies

end MasterDesk

end Copier.Mt5
