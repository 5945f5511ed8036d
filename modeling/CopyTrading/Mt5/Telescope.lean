import CopyTrading.Copier.Decision
import CopyTrading.Mt5.Ingress

/-!
# Mt5.Telescope — the closes of a hedging MT5 master

Every closing deal of a position becomes a close event that states the volume the report shows for the
position at its end.  So the stated remainders telescope only if the position closes once in the report:
of several closing deals all but the last understate what was left, and a copy sized by them ends below
the copy of a master that reported each deal alone.
-/

namespace Copier.Mt5

open List

/-- The close events of a position. -/
def closesOf (p : ℕ) (events : List MasterEvent) : List MasterPositionClosed :=
  events.filterMap fun
    | .positionClosed e => if e.positionId = p then some e else none
    | _ => none

/-- The closing trade deals of a position, in deal order. -/
def SyncReport.closingDeals (report : SyncReport) (p : ℕ) : List ReportDeal :=
  (sortedDeals report.deals).filter fun d => d.dealType.side.isSome && d.entry.isClose && d.position = p

/-- The volume the report shows for a position, 0 when it is gone. -/
def SyncReport.shownVolume (report : SyncReport) (p : ℕ) : ℕ :=
  ((lookup ReportPosition.ticket report.positions p).map ReportPosition.volume).getD 0

/-- Each remainder is the next one and what the next close takes; the last one is `v`. -/
def Telescopes (v : ℕ) : List MasterPositionClosed → Prop
  | [] => True
  | [e] => e.remainingVolume = v
  | e :: e' :: es =>
    e.remainingVolume = e'.remainingVolume + e'.closedVolume ∧ Telescopes v (e' :: es)

/-- One report per deal, each with what the position has left then. -/
def Separate (p v : ℕ) : List ReportDeal → List SyncReport → Prop
  | [], [] => True
  | d :: ds, r :: rs =>
    r.deals = [d] ∧ r.shownVolume p = v + (ds.map ReportDeal.volume).sum ∧ Separate p v ds rs
  | _, _ => False

/-- The copy's row after a close event whose request, if there is one, executes in full. -/
def applyClose (s : SlaveConfig) (m : Mapping) (e : MasterPositionClosed) : Mapping :=
  match m.held with
  | none => m
  | some h =>
    if m.status = .active then
      match closeFor e s ⟨m.slaveAccountId, h.slavePositionId, h.slaveVolume⟩ with
      | .closePosition i => m.reduce i.volume
      | _ => m
    else m

/-- Only the first closing deal of the position takes volume. -/
def SyncReport.ClosedOnce (report : SyncReport) (p : ℕ) : Prop :=
  ∀ d ∈ (report.closingDeals p).tail, d.volume = 0

instance (report : SyncReport) (p : ℕ) : Decidable (report.ClosedOnce p) :=
  inferInstanceAs (Decidable (∀ _ ∈ _, _))

/-! ### What the closes of a report are -/

section Events

variable {names : Names} {report : SyncReport} {p : ℕ}

theorem closesOf_append (es es' : List MasterEvent) :
    closesOf p (es ++ es') = closesOf p es ++ closesOf p es' := filterMap_append

theorem closesOf_eq_nil {es : List MasterEvent} (h : ∀ e, .positionClosed e ∉ es) :
    closesOf p es = [] := by
  refine filterMap_eq_nil_iff.2 fun a ha => ?_
  cases a with
  | positionClosed e => exact absurd ha (h e)
  | _ => rfl

/-- The close event of a deal: it states what the report shows at its end. -/
def closeOfDeal (names : Names) (report : SyncReport) (p : ℕ) (d : ReportDeal) : MasterPositionClosed :=
  ⟨p, names.canonical d.symbol, d.volume, report.shownVolume p⟩

theorem closesOf_hedgingDeal (prevOrders : List OrderSnapshot) (d : ReportDeal) (side : Side) :
    closesOf p (hedgingDeal names report prevOrders d side) =
      if d.entry.isClose ∧ d.position = p then [closeOfDeal names report p d] else [] := by
  unfold hedgingDeal
  by_cases hin : d.entry = .entryIn
  · have hc : ¬(d.entry.isClose = true ∧ d.position = p) := by simp [hin, DealEntry.isClose]
    rw [if_pos hin, if_neg hc]
    refine closesOf_eq_nil fun e => ?_
    split_ifs <;> simp
  · rw [if_neg hin]
    by_cases hc : d.entry.isClose
    · rw [if_pos hc]
      by_cases hp : d.position = p
      · subst hp
        simp [closesOf, hc, closeOfDeal, SyncReport.shownVolume]
      · simp [closesOf, hp]
    · rw [if_neg hc, if_neg fun h => hc h.1]
      rfl

/-- The loop over the deals of a hedging master. -/
theorem closesOf_dealEvents (names : Names) (report : SyncReport) (p : ℕ)
    (prevOrders : List OrderSnapshot) (ds : List ReportDeal) :
    (dealEvents names report prevOrders ds none).1 = none ∧
      closesOf p (dealEvents names report prevOrders ds none).2 =
        (ds.filter fun d => d.dealType.side.isSome && d.entry.isClose && d.position = p).map
          (closeOfDeal names report p) := by
  induction ds with
  | nil => exact ⟨rfl, rfl⟩
  | cons d ds ih =>
    obtain ⟨hl, hc⟩ := ih
    cases hs : d.dealType.side with
    | none =>
      rw [dealEvents]
      simp only [hs, filter_cons, Option.isSome_none, Bool.false_and, Bool.false_eq_true, if_false]
      exact ⟨hl, hc⟩
    | some side =>
      rw [dealEvents]
      simp only [hs, closesOf_append, closesOf_hedgingDeal, hc]
      refine ⟨hl, ?_⟩
      by_cases hd : d.entry.isClose ∧ d.position = p
      · rw [if_pos hd, filter_cons_of_pos (by simp [hs, hd.1, hd.2])]
        rfl
      · rw [if_neg hd, filter_cons_of_neg (by simpa [hs] using hd)]
        rfl

theorem closesOf_protectionEvents (prevPositions : List PositionSnapshot) (ps : List ReportPosition) :
    closesOf p (protectionEvents prevPositions ps none).2 = [] := by
  induction ps with
  | nil => rfl
  | cons pos ps ih =>
    rw [protectionEvents]
    cases lookup PositionSnapshot.positionId prevPositions pos.ticket with
    | none => exact ih
    | some prev =>
      simp only
      split_ifs
      · exact ih
      · exact ih

theorem closesOf_orderEvent (prevOrders : List OrderSnapshot) (o : ReportOrder) :
    closesOf p (orderEvent names prevOrders o) = [] := by
  unfold orderEvent
  refine closesOf_eq_nil fun e => ?_
  split
  · simp
  · split_ifs <;> simp

/-- **The closes of a report**: one for each closing deal, in deal order, all with the same remainder. -/
theorem closesOf_masterEventsFromReport
    (previous : Option (List PositionSnapshot × List OrderSnapshot)) :
    closesOf p (masterEventsFromReport report previous names none).2 =
      (report.closingDeals p).map (closeOfDeal names report p) := by
  have hdeals := fun prevOrders =>
    closesOf_dealEvents names report p prevOrders (sortedDeals report.deals)
  unfold masterEventsFromReport
  cases previous with
  | none => exact (hdeals _).2
  | some prev =>
    obtain ⟨prevPositions, prevOrders⟩ := prev
    simp only [Option.map_some, Option.getD_some, (hdeals prevOrders).1, closesOf_append,
      (hdeals prevOrders).2, closesOf_protectionEvents]
    have horders : closesOf p (((keys ReportOrder.ticket report.orders).filterMap
        (lookup ReportOrder.ticket report.orders)).flatMap (orderEvent names prevOrders)) = [] := by
      refine closesOf_eq_nil fun e he => ?_
      obtain ⟨o, -, ho⟩ := mem_flatMap.1 he
      have hmem : e ∈ closesOf e.positionId (orderEvent names prevOrders o) :=
        mem_filterMap.2 ⟨_, ho, if_pos rfl⟩
      rw [closesOf_orderEvent] at hmem
      cases hmem
    have hcancels : closesOf p (cancelEvents report prevOrders) = [] :=
      closesOf_eq_nil fun e => by simp [cancelEvents]
    rw [horders, hcancels, append_nil, append_nil, append_nil]
    rfl

/-- One deal reported alone. -/
theorem closingDeals_single {r : SyncReport} {d : ReportDeal} (hr : r.deals = [d])
    (hd : d ∈ report.closingDeals p) : r.closingDeals p = [d] := by
  have hc := of_mem_filter hd
  unfold SyncReport.closingDeals
  rw [hr]
  exact filter_cons_of_pos hc

/-- Closes that all state one remainder telescope just when those after the first take nothing. -/
theorem telescopes_iff {es : List MasterPositionClosed} {v : ℕ} (hr : ∀ e ∈ es, e.remainingVolume = v) :
    Telescopes v es ↔ ∀ e ∈ es.tail, e.closedVolume = 0 := by
  match es with
  | [] => simp [Telescopes]
  | [e] => simpa [Telescopes] using hr e mem_cons_self
  | e :: e' :: es =>
    have he := hr e mem_cons_self
    have he' := hr e' (mem_cons_of_mem e mem_cons_self)
    have ih := telescopes_iff fun x hx => hr x (mem_cons_of_mem e hx)
    have hstep : e.remainingVolume = e'.remainingVolume + e'.closedVolume ↔ e'.closedVolume = 0 := by omega
    rw [Telescopes, hstep, ih, tail_cons, tail_cons, forall_mem_cons]

/-- Reports with one deal each yield the closes of the deals, with what was left after each. -/
theorem closes_of_separate {v : ℕ} {ds : List ReportDeal} {reports : List SyncReport}
    (hs : Separate p v ds reports) (hsub : ds ⊆ report.closingDeals p)
    (hz : ∀ d ∈ ds.tail, d.volume = 0)
    (previous : SyncReport → Option (List PositionSnapshot × List OrderSnapshot)) :
    reports.flatMap (fun r => closesOf p (masterEventsFromReport r (previous r) names none).2) =
      ds.map fun d => ⟨p, names.canonical d.symbol, d.volume, v⟩ := by
  induction ds generalizing reports with
  | nil =>
    cases reports with
    | nil => rfl
    | cons r rs => exact hs.elim
  | cons d ds ih =>
    cases reports with
    | nil => exact hs.elim
    | cons r rs =>
      obtain ⟨hr, hv, hs⟩ := hs
      have hsum : (ds.map ReportDeal.volume).sum = 0 := by
        refine sum_eq_zero_iff.2 fun x hx => ?_
        obtain ⟨y, hy, rfl⟩ := mem_map.1 hx
        exact hz y hy
      rw [hsum, Nat.add_zero] at hv
      have hd := hsub mem_cons_self
      rw [flatMap_cons, ih hs (fun x hx => hsub (mem_cons_of_mem d hx))
        fun x hx => hz x (mem_of_mem_tail hx)]
      rw [closesOf_masterEventsFromReport, closingDeals_single hr hd]
      simp only [map_cons, map_nil, closeOfDeal, hv, singleton_append]

end Events

theorem map_closedVolume_closeOfDeal (names : Names) (report : SyncReport) (p : ℕ) (ds : List ReportDeal) :
    (ds.map (closeOfDeal names report p)).map (·.closedVolume) = ds.map (·.volume) := by
  rw [map_map]
  rfl

/-- The close events of a report telescope just when the position closes once in it. -/
theorem telescopes_closeOfDeal (names : Names) (report : SyncReport) (p : ℕ) :
    Telescopes (report.shownVolume p) ((report.closingDeals p).map (closeOfDeal names report p)) ↔
      report.ClosedOnce p := by
  rw [telescopes_iff, ← map_tail, forall_mem_map]
  · rfl
  · rw [forall_mem_map]
    exact fun _ _ => rfl

/-- **When the closes of a hedging master telescope.**  The close events of a position come in deal order; their
remainders telescope to the volume the report shows, and every copy ends where it ends after one report per deal,
just when the position closes once in the report. -/
theorem hedging_closes_telescope (names : Names) (report : SyncReport)
    (previous : Option (List PositionSnapshot × List OrderSnapshot)) (p : ℕ) :
    let es := closesOf p (masterEventsFromReport report previous names none).2
    es.map (·.closedVolume) = (report.closingDeals p).map (·.volume) ∧
      (Telescopes (report.shownVolume p) es ∧
          (∀ reports, Separate p (report.shownVolume p) (report.closingDeals p) reports →
            ∀ (previous' : SyncReport → Option (List PositionSnapshot × List OrderSnapshot)) (s : SlaveConfig)
                (m : Mapping),
              (es.foldl (applyClose s) m).volume =
                ((reports.flatMap fun r =>
                  closesOf p (masterEventsFromReport r (previous' r) names none).2).foldl
                    (applyClose s) m).volume) ↔
        report.ClosedOnce p) := by
  intro es
  have hes : es = (report.closingDeals p).map (closeOfDeal names report p) :=
    closesOf_masterEventsFromReport previous
  rw [hes, map_closedVolume_closeOfDeal, telescopes_closeOfDeal]
  refine ⟨rfl, fun h => h.1, fun h => ⟨h, ?_⟩⟩
  intro reports hs previous' s m
  rw [closes_of_separate hs (Subset.refl _) h previous']
  rfl

/-- The row of a copy of 100 of position 7. -/
def copyRow : Mapping := ⟨.cm 7 2, 2, some 7, none, none, some ⟨900, 100⟩, .active⟩

/-- A closing deal of position 7. -/
def sellOut (ticket volume timeMs : ℕ) : ReportDeal :=
  ⟨ticket, 7, ticket, "EURUSD", .sell, .entryOut, volume, 1, timeMs⟩

/-- Names as the broker has them. -/
def brokerNames : Names := ⟨fun _ => none, fun _ => none⟩

theorem hedging_closes_telescope_sample :
    let report : SyncReport := ⟨[⟨7, "EURUSD", 40, .unset⟩], [],
      [⟨12, 8, 12, "GBPUSD", .buy, .entryOut, 20, 1, 5⟩, sellOut 11 60 4,
        ⟨13, 9, 13, "GBPUSD", .buy, .entryIn, 20, 1, 6⟩]⟩
    report.ClosedOnce 7 ∧
      Telescopes 40 (closesOf 7 (masterEventsFromReport report none brokerNames none).2) ∧
      (closesOf 7 (masterEventsFromReport report none brokerNames none).2).map (·.closedVolume) = [60] := by
  intro report
  have h : report.ClosedOnce 7 := by decide
  obtain ⟨hc, htelescope⟩ := hedging_closes_telescope brokerNames report none 7
  refine ⟨h, (htelescope.2 h).1, hc.trans ?_⟩
  decide

/-- Two closes of 30 of a position of 100 in one report: both state the remainder 40, so the copy of 100
ends at 34; one report per deal leaves it 40. -/
theorem closes_in_one_report :
    let report : SyncReport := ⟨[⟨7, "EURUSD", 40, .unset⟩], [], [sellOut 11 30 4, sellOut 12 30 5]⟩
    let first : SyncReport := ⟨[⟨7, "EURUSD", 70, .unset⟩], [], [sellOut 11 30 4]⟩
    let second : SyncReport := ⟨[⟨7, "EURUSD", 40, .unset⟩], [], [sellOut 12 30 5]⟩
    let es := closesOf 7 (masterEventsFromReport report none brokerNames none).2
    ¬ Telescopes (report.shownVolume 7) es ∧
      Separate 7 (report.shownVolume 7) (report.closingDeals 7) [first, second] ∧
      (es.foldl (applyClose (sampleSlave 2 1)) copyRow).volume = 34 ∧
      (([first, second].flatMap fun r =>
        closesOf 7 (masterEventsFromReport r none brokerNames none).2).foldl (applyClose (sampleSlave 2 1))
          copyRow).volume = 40 := by
  intro report first second es
  have hes : es = [⟨7, "EURUSD", 30, 40⟩, ⟨7, "EURUSD", 30, 40⟩] := by decide
  refine ⟨?_, ?_, by decide, by decide⟩
  · rw [hes]
    rintro ⟨h, -⟩
    exact absurd h (by decide)
  · have hd : report.closingDeals 7 = [sellOut 11 30 4, sellOut 12 30 5] := by decide
    rw [hd]
    exact ⟨rfl, by decide, rfl, by decide, trivial⟩

end Copier.Mt5
