import CopyTrading.Mt5.Recovery

/-!
# Mt5.NetProtection — the stop and target of a net position

The levels of a net position reach its virtual positions by the difference between two reports, while the
ledger outlives the copier.  The first report after a restart is compared with nothing, so levels that changed
in between stay as they were until they change again.  A deal stamps the levels of the position it names, if
the report shows it; and the copies of a pending order keep the order's levels when it fills.
-/

namespace Copier.Mt5

open List Option Function NetLedger

/-! ### What the followers were told -/

/-- The levels last sent, for each master position and each pending order. -/
structure Told where
  positions : ℕ → Option Levels
  orders : ℕ → Option Levels

/-- What an event tells the followers; the copies of a filled order become copies of its position. -/
def Told.hear (t : Told) : MasterEvent → Told
  | .positionOpened e => { t with positions := Function.update t.positions e.positionId (some e.levels) }
  | .positionSLTPAmended e => { t with positions := Function.update t.positions e.positionId (some e.levels) }
  | .pendingPlaced e => { t with orders := Function.update t.orders e.orderId (some e.levels) }
  | .pendingReplaced e => { t with orders := Function.update t.orders e.orderId (some e.levels) }
  | .pendingFilled o p => { t with positions := Function.update t.positions p (t.orders o) }
  | _ => t

def Told.hearAll (t : Told) (es : List MasterEvent) : Told := es.foldl Told.hear t

/-- What a log told. -/
def told (log : List Acted) : Told := Told.hearAll ⟨fun _ => none, fun _ => none⟩ (log.flatMap Acted.events)

theorem Told.hearAll_append (t : Told) (es es' : List MasterEvent) :
    t.hearAll (es ++ es') = (t.hearAll es).hearAll es' := foldl_append

theorem told_append (log xs : List Acted) :
    told (log ++ xs) = (told log).hearAll (xs.flatMap Acted.events) := by
  rw [told, flatMap_append, Told.hearAll_append]
  rfl

/-- Closes tell nothing. -/
theorem Told.hearAll_closed (t : Told) (es : List MasterPositionClosed) :
    t.hearAll (es.map .positionClosed) = t := by
  induction es with
  | nil => rfl
  | cons e es ih => exact ih

/-! ### The deals of a report -/

section Deals

variable {names : Names} {report : SyncReport} {known : List OrderSnapshot} {v : VirtualPosition}
  {l : NetLedger} {d : ReportDeal} {levels : Levels}

/-- The levels that a deal stamps. -/
def stamped (report : SyncReport) (d : ReportDeal) : Levels :=
  shownLevels (lookup ReportPosition.ticket report.positions d.position)

/-- The deal fills an order of the previous book. -/
def FillsKnown (known : List OrderSnapshot) (d : ReportDeal) : Prop :=
  d.entry = .entryIn ∧ d.order ∈ known.map OrderSnapshot.orderId

instance (known : List OrderSnapshot) (d : ReportDeal) : Decidable (FillsKnown known d) :=
  inferInstanceAs (Decidable (_ ∧ _))

/-- A virtual position that was there before, with its levels. -/
def VirtualPosition.Stems (v : VirtualPosition) (ps : List VirtualPosition) : Prop :=
  ∃ w ∈ ps, w.virtualId = v.virtualId ∧ w.symbol = v.symbol ∧ w.levels = v.levels

theorem VirtualPosition.Stems.of_mem {ps : List VirtualPosition} (h : v ∈ ps) :
    v.Stems ps := ⟨v, h, rfl, rfl, rfl⟩

theorem stems_consume {symbol canonical : String} {n : ℕ}
    (h : v ∈ (l.consume symbol canonical n).1.positions) : v.Stems l.positions := by
  rw [positions_consume] at h
  rcases Fifo.mem_left h with h | ⟨w, hw, k, -, -, hd⟩
  · exact .of_mem h
  · obtain ⟨rfl, -⟩ := drain_some hd
    exact ⟨w, hw, rfl, rfl, rfl⟩

theorem mem_openVirtual {side : Side} {volume : ℕ}
    (h : v ∈ (l.openVirtual d side volume levels).positions) :
    v ∈ l.positions ∨ v.virtualId = d.ticket ∧ v.symbol = d.symbol ∧ v.levels = levels := by
  have h : v ∈ l.positions ++ [⟨d.ticket, d.symbol, side, volume, volume, levels, d.timeMs⟩] :=
    (perm_insertionSort _ _).mem_iff.1 h
  rcases mem_append.1 h with h | h
  · exact .inl h
  · obtain rfl := mem_singleton.1 h
    exact .inr ⟨rfl, rfl, rfl⟩

/-- What a deal does to the ledger and tells: it opens at most one position, of its own ticket, with the given
levels, and tells them. -/
structure Stamps (d : ReportDeal) (levels : Levels) (l : NetLedger) (r : NetLedger × List MasterEvent) : Prop where
  stems : ∀ v ∈ r.1.positions, v.Stems l.positions ∨
    v.virtualId = d.ticket ∧ v.symbol = d.symbol ∧ v.levels = levels ∧
      ∀ t : Told, (t.hearAll r.2).positions d.ticket = some levels
  others : ∀ (t : Told) (i : ℕ), i ≠ d.ticket → (t.hearAll r.2).positions i = t.positions i
  orders : ∀ t : Told, (t.hearAll r.2).orders = t.orders

theorem stamps_none (l : NetLedger) : Stamps d levels l (l, []) :=
  ⟨fun _ hv => .inl (.of_mem hv), fun _ _ _ => rfl, fun _ => rfl⟩

theorem stamps_consume (l : NetLedger) (canonical : String) (n : ℕ) :
    Stamps d levels l (NetLedger.applyDeal.closing (l.consume d.symbol canonical n)) where
  stems _ hv := .inl (stems_consume hv)
  others t i _ := by rw [applyDeal.closing, Told.hearAll_closed]
  orders t := by rw [applyDeal.closing, Told.hearAll_closed]

/-- An open after closes. -/
theorem Stamps.opened {r : NetLedger × List MasterEvent}
    (h : Stamps d levels l r) (canonical : String) (side : Side) (volume : ℕ) :
    Stamps d levels l (r.1.openVirtual d side volume levels,
      r.2 ++ [NetLedger.openedEvent d canonical side volume levels]) where
  stems v hv := by
    have htold : ∀ t : Told, (t.hearAll (r.2 ++ [openedEvent d canonical side volume levels])).positions
        d.ticket = some levels := by
      intro t
      rw [Told.hearAll_append]
      exact update_self _ _ _
    rcases mem_openVirtual hv with hv | ⟨hid, hsym, hlev⟩
    · rcases h.stems v hv with hv | ⟨hid, hsym, hlev, -⟩
      · exact .inl hv
      · exact .inr ⟨hid, hsym, hlev, htold⟩
    · exact .inr ⟨hid, hsym, hlev, htold⟩
  others t i hi := by
    rw [Told.hearAll_append, ← h.others t i hi]
    exact update_of_ne hi _ _
  orders t := by
    rw [Told.hearAll_append, ← h.orders t]
    rfl

theorem stamps_applyDeal (l : NetLedger) (d : ReportDeal) (canonical : String) (levels : Levels) :
    Stamps d levels l (l.applyDeal d canonical levels) := by
  unfold applyDeal
  cases d.dealType.side with
  | none => exact stamps_none l
  | some side =>
    simp only
    by_cases h0 : d.volume = 0
    · rw [if_pos h0]
      exact stamps_none l
    · rw [if_neg h0]
      cases d.entry with
      | entryIn => exact (stamps_none l).opened canonical side d.volume
      | entryOut | entryOutBy => exact stamps_consume l canonical d.volume
      | entryNone => exact stamps_none l
      | entryInOut =>
        simp only
        split_ifs
        · exact (stamps_consume l canonical _).opened canonical side _
        · exact stamps_consume l canonical _

/-- What the deals of a report leave: a virtual position of before with its levels, or one that a deal of the
report opened with the levels it stamps, which were told unless the deal fills a known order. -/
structure Stamped (report : SyncReport) (known : List OrderSnapshot) (ds : List ReportDeal) (l : NetLedger)
    (t : Told) (l' : NetLedger) (t' : Told) : Prop where
  stems : ∀ v ∈ l'.positions, v.Stems l.positions ∨
    ∃ d ∈ ds, v.virtualId = d.ticket ∧ v.symbol = d.symbol ∧ v.levels = stamped report d ∧
      (t'.positions d.ticket = some (stamped report d) ∨
        FillsKnown known d ∧ t'.positions d.ticket = t.orders d.order)
  others : ∀ i ∉ ds.map ReportDeal.ticket, t'.positions i = t.positions i
  orders : t'.orders = t.orders

/-- One deal. -/
theorem stamped_dealStep (names : Names) (report : SyncReport) (known : List OrderSnapshot) (d : ReportDeal)
    (l : NetLedger) (t : Told) :
    ∃ l', (dealStep names report known d (some l)).1 = some l' ∧
      Stamped report known [d] l t l' (t.hearAll (dealStep names report known d (some l)).2) := by
  have hdeal := stamps_applyDeal l d (names.canonical d.symbol) (stamped report d)
  unfold dealStep
  cases d.dealType.side with
  | none => exact ⟨l, rfl, fun v hv => .inl (.of_mem hv), fun _ _ => rfl, rfl⟩
  | some side =>
    simp only [nettingDeal]
    split_ifs with hfill
    · -- the ledger is that of an open, but the copies are those of the order
      have hknown : FillsKnown known d := ⟨hfill.1, isSome_lookup.1 hfill.2⟩
      refine ⟨_, rfl, fun v hv => ?_, fun i hi => ?_, rfl⟩
      · rcases hdeal.stems v hv with hv | ⟨hid, hsym, hlev, -⟩
        · exact .inl hv
        · exact .inr ⟨d, mem_singleton_self d, hid, hsym, hlev, .inr ⟨hknown, update_self _ _ _⟩⟩
      · exact update_of_ne (by simpa using hi) _ _
    · refine ⟨_, rfl, fun v hv => ?_, fun i hi => hdeal.others t i (by simpa using hi), hdeal.orders t⟩
      rcases hdeal.stems v hv with hv | ⟨hid, hsym, hlev, htold⟩
      · exact .inl hv
      · exact .inr ⟨d, mem_singleton_self d, hid, hsym, hlev, .inl (htold t)⟩

/-- **The deals of a report.** -/
theorem stamped_deals (names : Names) (report : SyncReport) (known : List OrderSnapshot) (ds : List ReportDeal)
    (hnd : (ds.map ReportDeal.ticket).Nodup) (l : NetLedger) (t : Told) :
    ∃ l', dealLedger names report known ds (some l) = some l' ∧
      Stamped report known ds l t l'
        (t.hearAll ((dealTrace names report known ds (some l)).flatMap Prod.snd)) := by
  induction ds generalizing l t with
  | nil => exact ⟨l, rfl, fun v hv => .inl (.of_mem hv), fun _ _ => rfl, rfl⟩
  | cons d ds ih =>
    rw [map_cons, nodup_cons] at hnd
    obtain ⟨l₁, hl₁, hone⟩ := stamped_dealStep names report known d l t
    set es := (dealStep names report known d (some l)).2 with hes
    obtain ⟨l', hl', hrest⟩ := ih hnd.2 l₁ (t.hearAll es)
    have htrace : (dealTrace names report known (d :: ds) (some l)).flatMap Prod.snd =
        es ++ (dealTrace names report known ds (some l₁)).flatMap Prod.snd := by
      rw [dealTrace, hl₁, flatMap_cons]
    refine ⟨l', ?_, ?_⟩
    · rw [dealLedger, foldl_cons, hl₁]
      exact hl'
    · rw [htrace, Told.hearAll_append]
      constructor
      case stems =>
        intro v hv
        rcases hrest.stems v hv with hv | ⟨x, hx, hid, hsym, hlev, htold⟩
        · obtain ⟨w, hw, hid, hsym, hlev⟩ := hv
          rcases hone.stems w hw with ⟨u, hu, hid', hsym', hlev'⟩ | ⟨x, hx, hid', hsym', hlev', htold⟩
          · exact .inl ⟨u, hu, hid'.trans hid, hsym'.trans hsym, hlev'.trans hlev⟩
          · obtain rfl := mem_singleton.1 hx
            refine .inr ⟨x, mem_cons_self, hid ▸ hid', hsym ▸ hsym', hlev ▸ hlev', ?_⟩
            rwa [hrest.others x.ticket hnd.1]
        · refine .inr ⟨x, mem_cons_of_mem d hx, hid, hsym, hlev, ?_⟩
          rwa [hone.orders] at htold
      case others =>
        intro i hi
        rw [map_cons, mem_cons, not_or] at hi
        rw [hrest.others i hi.2, hone.others i (by simpa using hi.1)]
      case orders => rw [hrest.orders, hone.orders]

end Deals

/-! ### The comparison of the books -/

section Books

variable {prev : List PositionSnapshot} {l : NetLedger} {t : Told}

/-- Every virtual position's followers were last told its levels. -/
def Sent (l : NetLedger) (t : Told) : Prop := ∀ v ∈ l.positions, t.positions v.virtualId = some v.levels

/-- What amends of some positions tell. -/
theorem Told.hearAll_amended (t : Told) (ids : List ℕ) (levels : Levels) :
    (∀ i, (t.hearAll (ids.map fun i => .positionSLTPAmended ⟨i, levels⟩)).positions i =
      if i ∈ ids then some levels else t.positions i) ∧
      (t.hearAll (ids.map fun i => .positionSLTPAmended ⟨i, levels⟩)).orders = t.orders := by
  induction ids generalizing t with
  | nil => exact ⟨fun _ => rfl, rfl⟩
  | cons j ids ih =>
    obtain ⟨hpos, hord⟩ := ih (t.hear (.positionSLTPAmended ⟨j, levels⟩))
    refine ⟨fun i => ?_, hord⟩
    rw [map_cons, Told.hearAll, foldl_cons]
    refine (hpos i).trans ?_
    by_cases hi : i ∈ ids
    · simp [hi]
    · by_cases hij : i = j
      · subst hij
        rw [if_neg hi, if_pos mem_cons_self]
        exact update_self _ _ _
      · rw [if_neg hi, if_neg (by simp [hi, hij])]
        exact update_of_ne hij _ _

theorem positions_applyProtection (l : NetLedger) (symbol : String) (levels : Levels) :
    (l.applyProtection symbol levels).1.positions =
      l.positions.map fun v => if v.symbol = symbol then { v with levels := levels } else v :=
  (foldl_markDirty_rest _ _).1

/-- What the comparison does about one shown position: its virtual positions have its levels afterwards, the
others are as they were, and everyone was told. -/
structure Settled (pos : ReportPosition) (l : NetLedger) (t : Told) (r : NetLedger × List MasterEvent) : Prop where
  ids : r.1.positions.map VirtualPosition.virtualId = l.positions.map VirtualPosition.virtualId
  sent : Sent r.1 (t.hearAll r.2)
  others : ∀ v ∈ r.1.positions, v.symbol ≠ pos.symbol → v ∈ l.positions
  levels : ∀ v ∈ r.1.positions, v.symbol = pos.symbol → v.levels = pos.levels

theorem settled_applyProtection (h : Sent l t)
    (hids : (l.positions.map VirtualPosition.virtualId).Nodup) (pos : ReportPosition) :
    Settled pos l t (l.applyProtection pos.symbol pos.levels) := by
  have hps := positions_applyProtection l pos.symbol pos.levels
  set f : VirtualPosition → VirtualPosition :=
    fun v => if v.symbol = pos.symbol then { v with levels := pos.levels } else v with hf
  have hkeep : ∀ v, (f v).virtualId = v.virtualId ∧ (f v).symbol = v.symbol := by
    intro v
    simp only [hf]
    split_ifs <;> exact ⟨rfl, rfl⟩
  -- the followers of the changed ones are told
  set changed := (l.ofSymbol pos.symbol).filter fun v => v.levels ≠ pos.levels with hchanged
  have hevents : (l.applyProtection pos.symbol pos.levels).2 =
      (changed.map VirtualPosition.virtualId).map fun i => .positionSLTPAmended ⟨i, pos.levels⟩ := by
    rw [List.map_map]
    rfl
  have hsymbol : ∀ v ∈ l.positions, v.virtualId ∈ changed.map VirtualPosition.virtualId →
    v.symbol = pos.symbol := by
    intro v hv hm
    obtain ⟨w, hw, hid⟩ := mem_map.1 hm
    obtain ⟨hw, hsym⟩ := mem_filter.1 (mem_of_mem_filter hw)
    rw [← inj_on_of_nodup_map hids hw hv hid]
    simpa using hsym
  constructor
  case ids =>
    rw [hps, List.map_map]
    exact List.map_congr_left fun v _ => (hkeep v).1
  case sent =>
    intro v' hv'
    rw [hps] at hv'
    obtain ⟨v, hv, rfl⟩ := mem_map.1 hv'
    rw [hevents, (Told.hearAll_amended t _ pos.levels).1, (hkeep v).1]
    by_cases hsym : v.symbol = pos.symbol
    · have hfv : (f v).levels = pos.levels := by simp [hf, hsym]
      rw [hfv]
      by_cases hlev : v.levels = pos.levels
      · split_ifs
        · rfl
        · rw [h v hv, hlev]
      · have hm : v ∈ changed :=
          mem_filter.2 ⟨mem_filter.2 ⟨hv, by simpa using hsym⟩, by simpa using hlev⟩
        exact if_pos (mem_map_of_mem hm)
    · have hfv : f v = v := by simp [hf, hsym]
      rw [hfv, if_neg fun hm => hsym (hsymbol v hv hm)]
      exact h v hv
  case others =>
    intro v' hv' hne
    rw [hps] at hv'
    obtain ⟨v, hv, rfl⟩ := mem_map.1 hv'
    rw [(hkeep v).2] at hne
    simpa [hf, hne] using hv
  case levels =>
    intro v' hv' heq
    rw [hps] at hv'
    obtain ⟨v, hv, rfl⟩ := mem_map.1 hv'
    rw [(hkeep v).2] at heq
    simp [hf, heq]

/-- One round of the comparison. -/
theorem settled_round (pos : ReportPosition) (rest : List ReportPosition) (h : Sent l t)
    (hids : (l.positions.map VirtualPosition.virtualId).Nodup)
    (hq : (∀ e, lookup PositionSnapshot.positionId prev pos.ticket = some e → e.levels = pos.levels) →
      ∀ v ∈ l.positions, v.symbol = pos.symbol → v.levels = pos.levels) :
    ∃ r : NetLedger × List MasterEvent, Settled pos l t r ∧
      protectionEvents prev (pos :: rest) (some l) =
        ((protectionEvents prev rest (some r.1)).1, r.2 ++ (protectionEvents prev rest (some r.1)).2) := by
  have hsame : (∀ v ∈ l.positions, v.symbol = pos.symbol → v.levels = pos.levels) → Settled pos l t (l, []) :=
    fun hlev => ⟨rfl, h, fun _ hv _ => hv, hlev⟩
  cases he : lookup PositionSnapshot.positionId prev pos.ticket with
  | none =>
    refine ⟨(l, []), hsame (hq (by simp [he])), ?_⟩
    simp only [protectionEvents, he]
    rfl
  | some e =>
    by_cases hlev : e.levels = pos.levels
    · refine ⟨(l, []), hsame (hq (by simpa [he] using hlev)), ?_⟩
      simp only [protectionEvents, he, if_pos hlev]
      rfl
    · refine ⟨_, settled_applyProtection h hids pos, ?_⟩
      simp only [protectionEvents, he, if_neg hlev]

/-- **The comparison of the books**, a net position for each symbol. -/
theorem protectionEvents_settled (ps : List ReportPosition) (hsym : (ps.map ReportPosition.symbol).Nodup)
    (h : Sent l t) (hids : (l.positions.map VirtualPosition.virtualId).Nodup)
    (hq : ∀ pos ∈ ps, (∀ e, lookup PositionSnapshot.positionId prev pos.ticket = some e → e.levels = pos.levels) →
      ∀ v ∈ l.positions, v.symbol = pos.symbol → v.levels = pos.levels) :
    ∃ l', (protectionEvents prev ps (some l)).1 = some l' ∧
      Sent l' (t.hearAll (protectionEvents prev ps (some l)).2) ∧
      (∀ v ∈ l'.positions, v.symbol ∉ ps.map ReportPosition.symbol → v ∈ l.positions) ∧
      ∀ pos ∈ ps, ∀ v ∈ l'.positions, v.symbol = pos.symbol → v.levels = pos.levels := by
  induction ps generalizing l t with
  | nil => exact ⟨l, rfl, h, fun _ hv _ => hv, nofun⟩
  | cons pos rest ih =>
    rw [map_cons, nodup_cons] at hsym
    obtain ⟨r, hr, heq⟩ := settled_round pos rest h hids (hq pos mem_cons_self)
    have hq' : ∀ pos' ∈ rest,
        (∀ e, lookup PositionSnapshot.positionId prev pos'.ticket = some e → e.levels = pos'.levels) →
          ∀ v ∈ r.1.positions, v.symbol = pos'.symbol → v.levels = pos'.levels := by
      intro pos' hpos' hlev v hv hvs
      have hne : v.symbol ≠ pos.symbol := by
        intro heq
        exact hsym.1 (heq ▸ hvs ▸ mem_map_of_mem hpos')
      exact hq pos' (mem_cons_of_mem pos hpos') hlev v (hr.others v hv hne) hvs
    obtain ⟨l', hl', hsent, hframe, hlevels⟩ := ih hsym.2 hr.sent (hr.ids ▸ hids) hq'
    rw [heq]
    refine ⟨l', hl', ?_, fun v hv hn => ?_, fun pos' hpos' v hv hvs => ?_⟩
    · rw [Told.hearAll_append]
      exact hsent
    · rw [map_cons, mem_cons, not_or] at hn
      exact hr.others v (hframe v hv hn.2) hn.1
    · rcases mem_cons.1 hpos' with rfl | hpos'
      · exact hr.levels v (hframe v hv (hvs ▸ hsym.1)) hvs
      · exact hlevels pos' hpos' v hv hvs

/-- Events of pending orders tell nothing of positions. -/
theorem Told.hearAll_orders (t : Told) {es : List MasterEvent}
    (h : ∀ e ∈ es, (∃ x, e = .pendingPlaced x) ∨ (∃ x, e = .pendingReplaced x) ∨ ∃ o, e = .pendingCancelled o) :
    (t.hearAll es).positions = t.positions := by
  induction es generalizing t with
  | nil => rfl
  | cons e es ih =>
    refine (ih (t.hear e) fun e' he' => h e' (mem_cons_of_mem e he')).trans ?_
    rcases h e mem_cons_self with ⟨x, rfl⟩ | ⟨x, rfl⟩ | ⟨o, rfl⟩ <;> rfl

end Books

/-! ### Runs -/

namespace MasterDesk

section Levels

variable {cfg : MasterConfig} {s s' : MasterDesk} {deals : List ReportDeal} {a : MasterAction}

/-- The positions of the previous book, if there is one. -/
def prevPositions (s : MasterDesk) : List PositionSnapshot := (s.previous.map Prod.fst).getD []

/-- What keeps the levels of the virtual positions of shown symbols.  One that the report's deals opened names
the shown ticket; one of an earlier report has the shown levels already if the previous report did not show the
ticket, or there is none; and an order that fills was copied with the levels that the deal stamps. -/
def KeepsLevels (cfg : MasterConfig) : MasterAction → MasterDesk → Prop
  | .sync deals cut, s =>
    cut = none ∧ ∀ l ∈ s.afterDeals cfg deals,
      (∀ v ∈ l.positions, ∀ pos ∈ s.positions, v.symbol = pos.symbol →
        (∀ d ∈ s.fresh deals, d.ticket = v.virtualId → d.position = pos.ticket) ∧
          (v.virtualId ∉ (s.fresh deals).map ReportDeal.ticket →
            pos.ticket ∉ s.prevPositions.map PositionSnapshot.positionId → v.levels = pos.levels)) ∧
        ∀ d ∈ s.fresh deals, FillsKnown (knownOrders s.previous) d →
          d.ticket ∈ l.positions.map VirtualPosition.virtualId →
          (told s.disk.log).orders d.order = some (stamped (s.freshReport deals) d)
  | _, _ => True

instance (a : MasterAction) (s : MasterDesk) : Decidable (KeepsLevels cfg a s) := by
  induction a using MasterAction.casesOn <;> (dsimp only [KeepsLevels]; infer_instance)

theorem KeepsLevels.not_torn (h : KeepsLevels cfg a s) : ¬ Torn cfg a s := by
  intro ht
  cases a with
  | sync deals cut =>
    obtain ⟨rfl, -⟩ := h
    exact ht
  | _ => exact ht

/-- The ledger has the levels of the last report, and the followers those of the ledger. -/
structure Leveled (cfg : MasterConfig) (s : MasterDesk) : Prop where
  recovered : Recovered cfg s
  good : GoodBook cfg s.positions s.orders
  sent : Sent (NetLedger.ofRows s.disk.table.rows) (told s.disk.log)
  prev : ∀ e ∈ s.prevPositions, ∀ v ∈ (NetLedger.ofRows s.disk.table.rows).positions,
    v.symbol = cfg.symbolOf e.positionId → v.levels = e.levels

theorem leveled_init : Leveled cfg init where
  recovered := recovered_init
  good := ⟨nodup_nil, nofun, fun _ => nodup_nil, nofun⟩
  sent := nofun
  prev := nofun

/-- After the deals. -/
theorem Leveled.afterDeals (h : Leveled cfg s) (hn : cfg.netting = true) (hp : s.fresh deals <+: s.unseen)
    (hk : KeepsLevels cfg (.sync deals none) s) :
    ∃ l, s.afterDeals cfg deals = some l ∧ (l.positions.map VirtualPosition.virtualId).Nodup ∧
      Sent l ((told s.disk.log).hearAll ((s.trace cfg deals).flatMap Prod.snd)) ∧
      ∀ pos ∈ s.positions,
        (∀ e, lookup PositionSnapshot.positionId s.prevPositions pos.ticket = some e → e.levels = pos.levels) →
        ∀ v ∈ l.positions, v.symbol = pos.symbol → v.levels = pos.levels := by
  obtain ⟨l, tickets, hl, hkept, -⟩ := h.recovered.afterDeals hn hp
  obtain ⟨hstamp, hfill⟩ := hk.2 l hl
  have hnet : s.netLedger cfg = some (ofRows s.disk.table.rows) := by
    rw [h.recovered.netLedger, if_pos hn]
  obtain ⟨l', hl', hdeals⟩ := stamped_deals cfg.names (s.freshReport deals) (knownOrders s.previous)
    (s.fresh deals) (h.recovered.fresh_nodup hp) (ofRows s.disk.table.rows) (told s.disk.log)
  obtain rfl : l' = l := by
    rw [MasterDesk.afterDeals, hnet, hl'] at hl
    exact some.inj hl
  rw [← hnet] at hdeals
  -- the ids of earlier reports are behind the watermark
  have hold : ∀ w ∈ (ofRows s.disk.table.rows).positions,
      w.virtualId ∉ (s.fresh deals).map ReportDeal.ticket := by
    intro w hw hm
    obtain ⟨d, hd, hid⟩ := mem_map.1 hm
    have hlt := lt_of_mem_unseen (hp.subset hd)
    have hle := h.recovered.seen w ((perm_insertionSort _ _).mem_iff.1 hw)
    omega
  refine ⟨l', hl, hkept.ids, fun v hv => ?_, fun pos hpos hprev v hv hsym => ?_⟩
  · rcases hdeals.stems v hv with ⟨w, hw, hid, -, hlev⟩ | ⟨d, hd, hid, -, hlev, htold | ⟨hfills, htold⟩⟩
    · rw [← hid, ← hlev]
      exact (hdeals.others _ (hold w hw)).trans (h.sent w hw)
    · rw [hid, hlev]
      exact htold
    · rw [hid, hlev, ← hfill d hd hfills (hid ▸ mem_map_of_mem hv)]
      exact htold
  · obtain ⟨hnames, hshown⟩ := hstamp v hv pos hpos hsym
    rcases hdeals.stems v hv with ⟨w, hw, hid, hsym', hlev⟩ | ⟨d, hd, hid, -, hlev, -⟩
    · by_cases hm : pos.ticket ∈ s.prevPositions.map PositionSnapshot.positionId
      · obtain ⟨e, he⟩ := isSome_iff_exists.1 (isSome_lookup.2 hm)
        obtain ⟨hmem, hkey⟩ := key_of_lookup he
        rw [← hprev e he, ← hlev]
        refine h.prev e hmem w hw ?_
        rw [hkey, hsym', hsym]
        exact h.good.2.1 pos hpos
      · exact hshown (hid ▸ hold w hw) hm
    · rw [hlev, stamped, hnames d hd hid.symm]
      exact congrArg shownLevels (lookup_of_nodup h.good.1 hpos)

/-- After the comparison. -/
theorem Leveled.diff (h : Leveled cfg s) (hn : cfg.netting = true) (hp : s.fresh deals <+: s.unseen)
    (hk : KeepsLevels cfg (.sync deals none) s) : ∃ l, (s.diff cfg deals).1 = some l ∧
      Sent l (told (s.disk.log ++ s.acts cfg deals)) ∧
      ∀ pos ∈ s.positions, ∀ v ∈ l.positions, v.symbol = pos.symbol → v.levels = pos.levels := by
  obtain ⟨l₁, hl₁, hids, hsent, hq⟩ := h.afterDeals hn hp hk
  rw [told_append, events_acts, Told.hearAll_append, MasterDesk.diff, hl₁]
  cases hprev : s.previous with
  | none =>
    refine ⟨l₁, rfl, hsent, fun pos hpos => hq pos hpos ?_⟩
    rw [prevPositions, hprev]
    intro e he
    cases he
  | some p =>
    have hp1 : s.prevPositions = p.1 := by
      rw [prevPositions, hprev]
      rfl
    have hshown : (keys ReportPosition.ticket (s.freshReport deals).positions).filterMap
        (lookup ReportPosition.ticket (s.freshReport deals).positions) = s.positions :=
      filterMap_lookup_of_nodup h.good.1
    rw [hp1] at hq
    obtain ⟨l', hl', hsent', -, hlevels⟩ := protectionEvents_settled s.positions (h.good.2.2.1 hn) hsent hids hq
    simp only [diffEvents, hshown]
    refine ⟨l', hl', fun v hv => ?_, hlevels⟩
    rw [Told.hearAll_append, Told.hearAll_orders]
    · exact hsent' v hv
    · intro e he
      rcases mem_append.1 he with he | he
      · obtain ⟨o, -, he⟩ := mem_flatMap.1 he
        exact (orderEvent_pending o e he).imp_right .inl
      · obtain ⟨o, -, rfl⟩ := mem_map.1 he
        exact .inr (.inr ⟨o, rfl⟩)

/-- The ledger of a report that was handled. -/
theorem Leveled.handled (h : Leveled cfg s) (hn : cfg.netting = true) (hp : s.fresh deals <+: s.unseen)
    (hk : KeepsLevels cfg (.sync deals none) s) :
    ∃ l, (s.handled cfg deals).ledger = some l ∧
      l = NetLedger.ofRows (s.handled cfg deals).disk.table.rows ∧ Sent l (told (s.handled cfg deals).disk.log) ∧
      ∀ pos ∈ s.positions, ∀ v ∈ l.positions, v.symbol = pos.symbol → v.levels = pos.levels := by
  obtain ⟨l, hdiff, hsent, hlevels⟩ := h.diff hn hp hk
  obtain ⟨l', tickets, hdiff', hkept, -⟩ := h.recovered.diff hn hp
  obtain rfl : l = l' := some.inj (hdiff.symm.trans hdiff')
  obtain ⟨ds, hdisk⟩ := disk_commits cfg s deals
  have htable : (s.handled cfg deals).disk.table = (l.persist s.disk.table).2 := by
    rw [MasterDesk.handled, hdisk, hdiff, elim_some]
  have hlog : (s.handled cfg deals).disk.log = s.disk.log ++ s.acts cfg deals := by
    rw [MasterDesk.handled, hdisk]
  refine ⟨l.dirtyRows.1, ?_, ?_, ?_, hlevels⟩
  · rw [MasterDesk.handled, hdiff]
    rfl
  · rw [htable]
    exact hkept.persist.1.symm
  · rw [hlog]
    exact hsent

theorem Leveled.step (hn : cfg.netting = true) (ha : KeepsLevels cfg a s) (h : Leveled cfg s)
    (hf : fire cfg a s = some s') : Leveled cfg s' := by
  have hr : Recovered cfg s' := h.recovered.step ha.not_torn hf
  cases a with
  | trade d positions orders | book positions orders =>
    simp only [fire] at hf
    split_ifs at hf with hc
    cases hf
    exact ⟨hr, hc.2, h.sent, h.prev⟩
  | sync deals cut =>
    obtain rfl := ha.1
    simp only [fire] at hf
    split_ifs at hf with hp
    cases hf
    obtain ⟨l, -, hl, hsent, hlevels⟩ := h.handled hn (fresh_reported h.recovered.timely.ordered hp) ha
    rw [hl] at hsent hlevels
    refine ⟨hr, h.good, hsent, fun e he v hv hsym => ?_⟩
    obtain ⟨pos, hpos, rfl⟩ := mem_map.1 he
    exact hlevels pos hpos v hv (hsym.trans (h.good.2.1 pos hpos).symm)
  | restart =>
    cases hf
    exact ⟨hr, h.good, h.sent, forall_mem_nil _⟩

/-- **The levels of a net position reach its virtual positions and their followers.**  In every run of a
netting master that meets the condition, restarts included, after every report every virtual position of a
shown symbol carries the shown levels, and its followers were last sent them. -/
theorem net_protection_kept {s s' : MasterDesk} (hn : cfg.netting = true)
    (h : Machine.Run (fire cfg) (KeepsLevels cfg) init s) (hk : KeepsLevels cfg (.sync deals none) s)
    (hf : fire cfg (.sync deals none) s = some s') :
    ∃ l, s'.ledger = some l ∧ ∀ pos ∈ s'.positions, ∀ v ∈ l.positions, v.symbol = pos.symbol →
      v.levels = pos.levels ∧ (told s'.disk.log).positions v.virtualId = some pos.levels := by
  have hl : Leveled cfg s := h.invariant leveled_init fun _ _ _ ha hi hf => hi.step hn ha hf
  simp only [fire] at hf
  split_ifs at hf with hp
  cases hf
  obtain ⟨l, hledger, -, hsent, hlevels⟩ := hl.handled hn (fresh_reported hl.recovered.timely.ordered hp) hk
  refine ⟨l, hledger, fun pos hpos v hv hsym => ?_⟩
  have hlev := hlevels pos hpos v hv hsym
  exact ⟨hlev, hlev ▸ hsent v hv⟩

/-- The net position with a stop, or without. -/
def sampleNet (stop : Option ℚ) : List ReportPosition := [⟨7, "EURUSD", 100, ⟨stop, none⟩⟩]

/-- The stop is set, the copier restarts, and the stop is moved. -/
theorem net_protection_kept_sample :
    ∃ s s', Machine.Run (fire sampleMaster) (KeepsLevels sampleMaster) init s ∧
      fire sampleMaster (.sync [] none) s = some s' ∧ s.previous.isSome = true ∧
        s'.positions = sampleNet (some 3) ∧
      ∃ l, s'.ledger = some l ∧ l.positions.map VirtualPosition.virtualId = [1] ∧
        ∀ v ∈ l.positions, v.symbol = "EURUSD" →
          v.levels = ⟨some 3, none⟩ ∧ (told s'.disk.log).positions v.virtualId = some ⟨some 3, none⟩ := by
  obtain ⟨s, hr, hk, hprev, hpos, hids⟩ : ∃ s, Machine.Run (fire sampleMaster) (KeepsLevels sampleMaster) init s ∧
      KeepsLevels sampleMaster (.sync [] none) s ∧ s.previous.isSome = true ∧ s.positions = sampleNet (some 3) ∧
      ((fire sampleMaster (.sync [] none) s).bind MasterDesk.ledger).map
        (fun l => l.positions.map VirtualPosition.virtualId) = some [1] :=
    Machine.exists_run [.trade sampleBuy (sampleNet none) [], .sync [sampleBuy] none,
      .book (sampleNet (some 2)) [],
        .sync [] none, .restart, .sync [] none, .book (sampleNet (some 3)) []] init (by decide)
  obtain ⟨ids, hids, hlist⟩ := map_eq_some_iff.1 hids
  obtain ⟨s', hf, hledger⟩ := bind_eq_some_iff.1 hids
  obtain ⟨l, hl, hlevels⟩ := net_protection_kept rfl hr hk hf
  obtain rfl : ids = l := some.inj (hledger.symm.trans hl)
  have hpos' : s'.positions = sampleNet (some 3) := by
    simp only [fire] at hf
    split_ifs at hf
    cases hf
    exact hpos
  refine ⟨s, s', hr, hf, hprev, hpos', ids, hl, hlist, fun v hv hsym => ?_⟩
  exact hlevels ⟨7, "EURUSD", 100, ⟨some 3, none⟩⟩ (by simp [hpos', sampleNet]) v hv hsym

/-- **A stop set while the copier is down is lost**: two reports later the virtual position has none, and its
followers were told of none. -/
theorem net_protection_lost :
    ∃ s s', Machine.Run (fire sampleMaster) (fun _ _ => True) init s ∧ Machine.Run (fire sampleMaster)
      (fun _ _ => True) s s' ∧
      s.previous.isSome = true ∧ s'.positions = sampleNet (some 2) ∧
      s'.ledger.map (fun l => l.positions.map VirtualPosition.levels) = some [.unset] ∧
      (told s'.disk.log).positions 1 = some .unset :=
  Machine.exists_run_pair [.trade sampleBuy (sampleNet none) [], .sync [sampleBuy] none, .restart,
    .book (sampleNet (some 2)) [],
      .sync [] none]
    [.sync [] none] init (by decide)

end Levels

end MasterDesk

end Copier.Mt5
