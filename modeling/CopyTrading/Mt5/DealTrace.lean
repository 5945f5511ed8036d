import CopyTrading.Mt5.Ingress

/-!
# Mt5.DealTrace — which events come from which deal

`master_events_from_report` goes through the deals first and compares the books afterwards.  The trace
keeps each deal with its events.  So what becomes of a pending order that filled can be said: its `IN` deals
link the copies, once each; but a vanished order is looked for among the `IN` deals only, and one that
filled against the net position is reported as cancelled.
-/

namespace Copier.Mt5

open List

section Trace

variable (names : Names) (report : SyncReport) (prevOrders : List OrderSnapshot)

/-- One round of the loop over the deals. -/
def dealStep (d : ReportDeal) (l : Option NetLedger) : Option NetLedger × List MasterEvent :=
  match d.dealType.side, l with
  | none, l => (l, [])
  | some side, none => (none, hedgingDeal names report prevOrders d side)
  | some _, some l =>
    let x := nettingDeal names report prevOrders d l
    (some x.1, x.2)

/-- Each deal with its events. -/
def dealTrace : List ReportDeal → Option NetLedger → List (ReportDeal × List MasterEvent)
  | [], _ => []
  | d :: ds, l =>
    let x := dealStep names report prevOrders d l
    (d, x.2) :: dealTrace ds x.1

/-- The ledger after the deals. -/
def dealLedger (ds : List ReportDeal) (l : Option NetLedger) : Option NetLedger :=
  ds.foldl (fun l d => (dealStep names report prevOrders d l).1) l

/-- The part that compares this book with the previous one. -/
def diffEvents (previous : Option (List PositionSnapshot × List OrderSnapshot)) (l : Option NetLedger) :
    Option NetLedger × List MasterEvent :=
  match previous with
  | none => (l, [])
  | some (prevPositions, prevOrders) =>
    let shown := (keys ReportPosition.ticket report.positions).filterMap
      (lookup ReportPosition.ticket report.positions)
    let x := protectionEvents prevPositions shown l
    let orders := (keys ReportOrder.ticket report.orders).filterMap
      (lookup ReportOrder.ticket report.orders)
    (x.1, x.2 ++ (orders.flatMap (orderEvent names prevOrders) ++ cancelEvents report prevOrders))

variable {names report prevOrders}

theorem dealEvents_eq (ds : List ReportDeal) (l : Option NetLedger) :
    dealEvents names report prevOrders ds l =
      (dealLedger names report prevOrders ds l,
        (dealTrace names report prevOrders ds l).flatMap Prod.snd) := by
  induction ds generalizing l with
  | nil => rfl
  | cons d ds ih =>
    rw [dealEvents, dealTrace, dealLedger, foldl_cons, flatMap_cons]
    cases hs : d.dealType.side with
    | none =>
      simp only [dealStep, hs, nil_append]
      exact ih l
    | some side =>
      cases l with
      | none | some l =>
        simp only [dealStep, hs, ih]
        rfl

/-- The orders of the previous book, if there is one. -/
def knownOrders (previous : Option (List PositionSnapshot × List OrderSnapshot)) : List OrderSnapshot :=
  (previous.map Prod.snd).getD []

/-- **The events of a report**: those of its deals, one deal after the other, then those of the books. -/
theorem masterEventsFromReport_eq (previous : Option (List PositionSnapshot × List OrderSnapshot))
    (ledger : Option NetLedger) :
    let ds := sortedDeals report.deals
    let x := diffEvents names report previous
      (dealLedger names report (knownOrders previous) ds ledger)
    masterEventsFromReport report previous names ledger =
      (x.1, (dealTrace names report (knownOrders previous) ds ledger).flatMap Prod.snd ++ x.2) := by
  intro ds x
  cases previous with
  | none =>
    rw [masterEventsFromReport, dealEvents_eq]
    simp only [x, diffEvents, append_nil]
    rfl
  | some previous =>
    rw [masterEventsFromReport, dealEvents_eq]
    simp only [x, diffEvents, append_assoc]
    rfl

theorem trace_fst (ds : List ReportDeal) (l : Option NetLedger) :
    (dealTrace names report prevOrders ds l).map Prod.fst = ds := by
  induction ds generalizing l with
  | nil => rfl
  | cons d ds ih =>
    rw [dealTrace, map_cons]
    exact congrArg (List.cons d) (ih _)

/-- A round keeps the kind of the master. -/
theorem isSome_dealStep (d : ReportDeal) (l : Option NetLedger) :
    (dealStep names report prevOrders d l).1.isSome = l.isSome := by
  unfold dealStep
  split <;> rfl

/-- An entry of the trace is a round of the loop. -/
theorem exists_of_mem_trace {ds : List ReportDeal} {l : Option NetLedger} {x : ReportDeal × List MasterEvent}
    (hx : x ∈ dealTrace names report prevOrders ds l) :
    x.1 ∈ ds ∧ ∃ l', l'.isSome = l.isSome ∧ x.2 = (dealStep names report prevOrders x.1 l').2 := by
  induction ds generalizing l with
  | nil => cases hx
  | cons d ds ih =>
    rw [dealTrace] at hx
    rcases mem_cons.1 hx with rfl | hx
    · exact ⟨mem_cons_self, l, rfl, rfl⟩
    · obtain ⟨hd, l', hl', he⟩ := ih hx
      exact ⟨mem_cons_of_mem d hd, l', hl'.trans (isSome_dealStep d l), he⟩

end Trace

/-! ### Filled pending orders -/

section Fills

variable {names : Names} {report : SyncReport} {prevOrders : List OrderSnapshot} {t : ℕ}

/-- The event links the copies of order `t`. -/
def MasterEvent.fills (t : ℕ) : MasterEvent → Bool
  | .pendingFilled o _ => o = t
  | _ => false

/-- The event opens or closes at the market. -/
def MasterEvent.trades : MasterEvent → Bool
  | .positionOpened _ => true
  | .positionClosed _ => true
  | _ => false

/-- Every deal of the order is an `IN` deal. -/
def SyncReport.FilledIn (report : SyncReport) (t : ℕ) : Prop :=
  ∀ d ∈ report.deals, d.order = t → d.dealType.side.isSome ∧ d.entry = .entryIn

instance (report : SyncReport) (t : ℕ) : Decidable (report.FilledIn t) :=
  inferInstanceAs (Decidable (∀ _ ∈ _, _))

/-- The position an `IN` deal is copied as: virtual positions carry the deal's ticket. -/
def copiedAs (ledger : Option NetLedger) (d : ReportDeal) : ℕ :=
  if ledger.isSome then d.ticket else d.position

/-- An `IN` deal of a known order links the copies and does nothing else. -/
theorem dealStep_linked {d : ReportDeal} {l : Option NetLedger} (hs : d.dealType.side.isSome)
    (hin : d.entry = .entryIn) (ho : (lookup OrderSnapshot.orderId prevOrders d.order).isSome) :
    (dealStep names report prevOrders d l).2 = [.pendingFilled d.order (copiedAs l d)] := by
  obtain ⟨side, hs⟩ := Option.isSome_iff_exists.1 hs
  cases l with
  | none => simp [dealStep, hs, hedgingDeal, hin, ho, copiedAs]
  | some l => simp [dealStep, hs, nettingDeal, hin, ho, copiedAs]

theorem trades_applyDeal (l : NetLedger) (d : ReportDeal) (canonical : String) (levels : Levels) :
    ∀ e ∈ (l.applyDeal d canonical levels).2, MasterEvent.trades e = true := by
  have hclosing : ∀ r, ∀ e ∈ (NetLedger.applyDeal.closing r).2, MasterEvent.trades e = true := by
    intro r e he
    obtain ⟨c, -, rfl⟩ := mem_map.1 he
    rfl
  unfold NetLedger.applyDeal
  cases d.dealType.side with
  | none => exact forall_mem_nil _
  | some side =>
    simp only
    by_cases h0 : d.volume = 0
    · rw [if_pos h0]
      exact forall_mem_nil _
    · rw [if_neg h0]
      cases d.entry with
      | entryIn => simp [NetLedger.openedEvent, MasterEvent.trades]
      | entryOut | entryOutBy => exact hclosing _
      | entryNone => exact forall_mem_nil _
      | entryInOut =>
        simp only
        split_ifs
        · refine forall_mem_append.2 ⟨hclosing _, forall_mem_singleton.2 ?_⟩
          rfl
        · exact hclosing _

/-- A deal trades at the market, or it is an `IN` deal and links the copies of its own order. -/
theorem dealStep_events (d : ReportDeal) (l : Option NetLedger) :
    ∀ e ∈ (dealStep names report prevOrders d l).2, MasterEvent.trades e = true ∨
      (d.dealType.side.isSome ∧ d.entry = .entryIn) ∧ ∃ p, e = .pendingFilled d.order p := by
  unfold dealStep
  cases d.dealType.side with
  | none => exact forall_mem_nil _
  | some side =>
    cases l with
    | none =>
      simp only [hedgingDeal]
      split_ifs with hin <;> simp [MasterEvent.trades, hin]
    | some l =>
      simp only [nettingDeal]
      split_ifs with hin
      · simp [hin.1]
      · exact fun e he => .inl (trades_applyDeal _ _ _ _ e he)

theorem protectionEvents_amend (prev : List PositionSnapshot) (ps : List ReportPosition)
    (l : Option NetLedger) :
    ∀ e ∈ (protectionEvents prev ps l).2, ∃ x, e = MasterEvent.positionSLTPAmended x := by
  induction ps generalizing l with
  | nil => exact forall_mem_nil _
  | cons pos rest ih =>
    simp only [protectionEvents]
    split
    · exact ih l
    · split_ifs
      · exact ih l
      · cases l with
        | none =>
          refine forall_mem_cons.2 ⟨?_, ih none⟩
          exact ⟨_, rfl⟩
        | some l =>
          intro e he
          rcases mem_append.1 he with he | he
          · obtain ⟨v, -, rfl⟩ := mem_map.1 he
            exact ⟨_, rfl⟩
          · exact ih _ e he

theorem orderEvent_pending (o : ReportOrder) :
    ∀ e ∈ orderEvent names prevOrders o,
      (∃ x, e = MasterEvent.pendingPlaced x) ∨ ∃ x, e = MasterEvent.pendingReplaced x := by
  unfold orderEvent
  split
  · exact fun e he => .inl ⟨_, mem_singleton.1 he⟩
  · split_ifs
    · exact fun e he => .inr ⟨_, mem_singleton.1 he⟩
    · exact forall_mem_nil _

/-- The comparison of the books does not trade and does not link, and it cancels no order that has an
`IN` deal. -/
theorem diffEvents_quiet (t : ℕ) (previous : Option (List PositionSnapshot × List OrderSnapshot))
    (l : Option NetLedger) :
    ∀ e ∈ (diffEvents names report previous l).2,
      MasterEvent.trades e = false ∧ MasterEvent.fills t e = false ∧
        (e = .pendingCancelled t → t ∉ filledOrders report) := by
  cases previous with
  | none => exact forall_mem_nil _
  | some previous =>
    intro e he
    rcases mem_append.1 he with he | he
    · obtain ⟨x, rfl⟩ := protectionEvents_amend _ _ _ e he
      exact ⟨rfl, rfl, nofun⟩
    rcases mem_append.1 he with he | he
    · obtain ⟨o, -, he⟩ := mem_flatMap.1 he
      rcases orderEvent_pending o e he with ⟨x, rfl⟩ | ⟨x, rfl⟩
      · exact ⟨rfl, rfl, nofun⟩
      · exact ⟨rfl, rfl, nofun⟩
    · obtain ⟨o, ho, rfl⟩ := mem_map.1 he
      refine ⟨rfl, rfl, fun heq => ?_⟩
      cases heq
      exact (of_decide_eq_true (mem_filter.1 ho).2).2

/-- How many of the events link the copies of `t`. -/
def linksOf (t : ℕ) (events : List MasterEvent) : ℕ := events.countP (MasterEvent.fills t)

/-- Each deal of a known order that fills as `IN` deals links its copies once. -/
theorem linksOf_trace (names : Names) (report : SyncReport)
    (ho : (lookup OrderSnapshot.orderId prevOrders t).isSome) (ds : List ReportDeal)
    (hin : ∀ d ∈ ds, d.order = t → d.dealType.side.isSome ∧ d.entry = .entryIn) (l : Option NetLedger) :
    linksOf t ((dealTrace names report prevOrders ds l).flatMap Prod.snd) =
      ds.countP fun d => d.order = t := by
  induction ds generalizing l with
  | nil => rfl
  | cons d ds ih =>
    have hrest := ih (fun d' hd' => hin d' (mem_cons_of_mem d hd'))
      (dealStep names report prevOrders d l).1
    rw [linksOf] at hrest
    rw [dealTrace, flatMap_cons, linksOf, countP_append, hrest, countP_cons, add_comm]
    by_cases hd : d.order = t
    · obtain ⟨hs, he⟩ := hin d mem_cons_self hd
      rw [dealStep_linked hs he (hd ▸ ho)]
      simp [MasterEvent.fills, hd]
    · have hnone : (dealStep names report prevOrders d l).2.countP (MasterEvent.fills t) = 0 := by
        refine countP_eq_zero.2 fun e he => ?_
        rcases dealStep_events d l e he with htr | ⟨-, p, rfl⟩
        · cases e <;> simp [MasterEvent.fills, MasterEvent.trades] at htr ⊢
        · simpa [MasterEvent.fills] using hd
      simp [hnone, hd]

/-- Deals cancel nothing. -/
theorem not_cancelled_trace (names : Names) (report : SyncReport) (ds : List ReportDeal) (l : Option NetLedger) :
    .pendingCancelled t ∉ (dealTrace names report prevOrders ds l).flatMap Prod.snd := by
  intro hm
  obtain ⟨x, hx, he⟩ := mem_flatMap.1 hm
  obtain ⟨-, l', -, hx2⟩ := exists_of_mem_trace hx
  rw [hx2] at he
  rcases dealStep_events x.1 l' _ he with htr | ⟨-, p, hp⟩
  · cases htr
  · cases hp

/-- An order that is gone without an `IN` deal is cancelled. -/
theorem cancelled_of_gone {prevPositions : List PositionSnapshot} {l : Option NetLedger}
    (ho : (lookup OrderSnapshot.orderId prevOrders t).isSome)
    (hgone : lookup ReportOrder.ticket report.orders t = none) (hin : t ∉ filledOrders report) :
    .pendingCancelled t ∈ (diffEvents names report (some (prevPositions, prevOrders)) l).2 := by
  refine mem_append_right _ (mem_append_right _ (mem_map_of_mem (mem_filter.2 ⟨?_, ?_⟩)))
  · exact mem_keys.2 (isSome_lookup.1 ho)
  · exact decide_eq_true ⟨by rw [hgone]; rfl, hin⟩

/-- The deals of the order link its copies, one link a deal, and do nothing at the market. -/
def Linked (t : ℕ) (ledger : Option NetLedger) (trace : List (ReportDeal × List MasterEvent)) : Prop :=
  ∀ x ∈ trace, x.1.order = t → x.2 = [.pendingFilled t (copiedAs ledger x.1)]

/-- The deals of the order are copied at the market, each of them, and link nothing. -/
def Dealt (t : ℕ) (trace : List (ReportDeal × List MasterEvent)) : Prop :=
  ∀ x ∈ trace, x.1.order = t → x.2 ≠ [] ∧ ∀ e ∈ x.2, MasterEvent.trades e = true

section Order

variable {prevPositions : List PositionSnapshot} {ledger : Option NetLedger}
  (ho : (lookup OrderSnapshot.orderId prevOrders t).isSome)
include ho

theorem linked_of_filledIn (hin : report.FilledIn t) :
    Linked t ledger (dealTrace names report prevOrders (sortedDeals report.deals) ledger) := by
  intro x hx hxt
  obtain ⟨hmem, l, hl, hx2⟩ := exists_of_mem_trace hx
  obtain ⟨hs, he⟩ := hin x.1 ((perm_insertionSort _ _).mem_iff.1 hmem) hxt
  rw [hx2, dealStep_linked hs he (hxt ▸ ho), hxt, copiedAs, copiedAs, hl]

/-- An order that reaches the followers one way and is not cancelled filled as `IN` deals. -/
theorem filledIn_of_once (hin : t ∈ filledOrders report)
    (h : Linked t ledger (dealTrace names report prevOrders (sortedDeals report.deals) ledger) ∨
      Dealt t (dealTrace names report prevOrders (sortedDeals report.deals) ledger)) :
    report.FilledIn t := by
  have htraced : ∀ d ∈ report.deals, ∃ l, (d, (dealStep names report prevOrders d l).2) ∈
      dealTrace names report prevOrders (sortedDeals report.deals) ledger := by
    intro d hd
    have hd' : d ∈ (dealTrace names report prevOrders (sortedDeals report.deals) ledger).map Prod.fst := by
      rw [trace_fst]
      exact (perm_insertionSort _ _).mem_iff.2 hd
    obtain ⟨x, hx, rfl⟩ := mem_map.1 hd'
    obtain ⟨-, l, -, hx2⟩ := exists_of_mem_trace hx
    exact ⟨l, hx2 ▸ hx⟩
  rcases h with hlinked | htraded
  · intro d hd hdt
    obtain ⟨l, hx⟩ := htraced d hd
    have hevents := hlinked _ hx hdt
    rcases dealStep_events d l _ (hevents ▸ mem_singleton_self _) with htr | ⟨hd', -⟩
    · cases htr
    · exact hd'
  · -- an `IN` deal of a known order links, so its deals are not all copied at the market
    obtain ⟨d, hd, hdt⟩ := mem_map.1 hin
    obtain ⟨hd, hentry⟩ := mem_filter.1 hd
    obtain ⟨l, hx⟩ := htraced d hd
    obtain ⟨hne, htrades⟩ := htraded _ hx hdt
    have hside : d.dealType.side.isSome := by
      by_contra hnone
      exact hne (by simp [dealStep, Option.not_isSome_iff_eq_none.1 hnone])
    simp only at htrades
    rw [dealStep_linked hside (of_decide_eq_true hentry).2 (hdt ▸ ho)] at htrades
    cases htrades _ (mem_singleton_self _)

end Order

/-- **When a filled pending order reaches the followers once.**  For every report with a previous one, hedging
or netting, and every order that is gone with a deal of its own: it is not cancelled, and its deals either
link its copies or are copied at the market, not both and not neither, just when they are all `IN` deals.
Then there is one link a deal.  The events are those of the deals and those of the books, which neither trade
nor link. -/
theorem filled_pending_linked (report : SyncReport) (prevPositions : List PositionSnapshot)
    (prevOrders : List OrderSnapshot) (names : Names) (ledger : Option NetLedger) {t : ℕ} (ht : t ≠ 0)
    (ho : (lookup OrderSnapshot.orderId prevOrders t).isSome)
    (hgone : lookup ReportOrder.ticket report.orders t = none) (hdeal : ∃ d ∈ report.deals, d.order = t) :
    let events := (masterEventsFromReport report (some (prevPositions, prevOrders)) names ledger).2
    let trace := dealTrace names report prevOrders (sortedDeals report.deals) ledger
    (∃ rest, events = trace.flatMap Prod.snd ++ rest ∧
      ∀ e ∈ rest, MasterEvent.trades e = false ∧ MasterEvent.fills t e = false) ∧
    trace.map Prod.fst = sortedDeals report.deals ∧
    (.pendingCancelled t ∉ events ∧ (Linked t ledger trace ∨ Dealt t trace) ↔ report.FilledIn t) ∧
    (report.FilledIn t → linksOf t events = report.deals.countP fun d => d.order = t) := by
  intro events trace
  have hevents : events = trace.flatMap Prod.snd ++ (diffEvents names report (some (prevPositions, prevOrders))
      (dealLedger names report prevOrders (sortedDeals report.deals) ledger)).2 :=
    congrArg Prod.snd (masterEventsFromReport_eq (some (prevPositions, prevOrders)) ledger)
  have hperm : (sortedDeals report.deals).Perm report.deals := perm_insertionSort _ _
  refine ⟨⟨_, hevents, fun e he => ?_⟩, trace_fst _ _, ⟨fun h => ?_, fun hin => ⟨?_, ?_⟩⟩,
    fun hin => ?_⟩
  · exact ⟨(diffEvents_quiet t _ _ e he).1, (diffEvents_quiet t _ _ e he).2.1⟩
  · obtain ⟨hcancel, honce⟩ := h
    refine filledIn_of_once ho (by_contra fun hnone => hcancel ?_) honce
    rw [hevents]
    exact mem_append_right _ (cancelled_of_gone ho hgone hnone)
  · obtain ⟨d, hd, hdt⟩ := hdeal
    have hfilled : t ∈ filledOrders report :=
      mem_map.2 ⟨d, mem_filter.2 ⟨hd, by simp [hdt, ht, (hin d hd hdt).2]⟩, hdt⟩
    rw [hevents, mem_append, not_or]
    exact ⟨not_cancelled_trace _ _ _ _, fun hm => (diffEvents_quiet t _ _ _ hm).2.2 rfl hfilled⟩
  · exact .inl (linked_of_filledIn ho hin)
  · have htrace := linksOf_trace names report ho (sortedDeals report.deals)
      (fun d hd hdt => hin d (hperm.mem_iff.1 hd) hdt) ledger
    rw [linksOf] at htrace
    rw [hevents, linksOf, countP_append, htrace, hperm.countP_eq]
    refine Nat.add_eq_left.2 (countP_eq_zero.2 fun e he => ?_)
    simp [(diffEvents_quiet t _ _ e he).2.1]

/-- A report without a book whose one deal is of pending order 8. -/
def sampleFill (dealType : DealType) (entry : DealEntry) : SyncReport :=
  ⟨[], [], [⟨2, 7, 8, "EURUSD", dealType, entry, 100, 1, 2⟩]⟩

def sampleBook : List OrderSnapshot := [⟨8, 100, 1, .unset⟩]

/-- Order 8 fills as an `IN` deal of a netting master. -/
theorem filled_pending_linked_sample :
    let events := (masterEventsFromReport (sampleFill .buy .entryIn) (some ([], sampleBook))
      ⟨fun _ => none, fun _ => none⟩ (some ⟨[], [], []⟩)).2
    (sampleFill .buy .entryIn).FilledIn 8 ∧ events = [.pendingFilled 8 2] ∧ .pendingCancelled 8 ∉ events ∧
      linksOf 8 events = 1 := by
  intro events
  obtain ⟨-, -, honce, hlinks⟩ := filled_pending_linked (sampleFill .buy .entryIn) [] sampleBook
    ⟨fun _ => none, fun _ => none⟩ (some ⟨[], [], []⟩) (t := 8) (by decide) (by decide) (by decide) (by decide)
  have hin : (sampleFill .buy .entryIn).FilledIn 8 := by decide
  exact ⟨hin, by decide, (honce.2 hin).1, hlinks hin⟩

/-- On a netting master that is long 100, pending order 8 fills as the deal that closes the position; its
copies are reported as cancelled. -/
theorem filled_pending_cancelled :
    (masterEventsFromReport (sampleFill .sell .entryOut) (some ([], sampleBook))
        ⟨fun _ => none, fun _ => none⟩ (some ⟨[⟨1, "EURUSD", .buy, 100, 100, .unset, 1⟩], [], []⟩)).2 =
      [.positionClosed ⟨1, "EURUSD", 100, 0⟩, .pendingCancelled 8] := by decide

end Fills

end Copier.Mt5
