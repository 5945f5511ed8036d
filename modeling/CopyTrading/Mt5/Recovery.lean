import CopyTrading.Mt5.Master

/-!
# Mt5.Recovery — crashes inside a master's report

The watermark is committed before the deals behind it are acted on and before the ledger is written, so a
crash in between loses the report's deals for good.  A crash anywhere else loses nothing: the deals are sent
again, and after any report the ledger is the ledger of the deals up to the watermark.
-/

namespace Copier.Mt5

open List VirtualPosition NetLedger

/-! ### The ledger of a list of deals -/

/-- A virtual position without its levels: what the deals alone say of it. -/
def VirtualPosition.bare (v : VirtualPosition) : VirtualPosition := { v with levels := .unset }

/-- The ledger without levels. -/
def NetLedger.bare (l : NetLedger) : List VirtualPosition := l.positions.map VirtualPosition.bare

/-- The ledger over deals. -/
def ledgerOf (ds : List ReportDeal) : NetLedger :=
  ds.foldl (fun l d => (l.applyDeal d d.symbol .unset).1) ⟨[], [], []⟩

section Bare

variable {l l' : NetLedger} {d : ReportDeal}

theorem bare_consume (l : NetLedger) (symbol canonical : String) (n : ℕ) :
    (l.consume symbol canonical n).1.bare =
      (Fifo.consume (VirtualPosition.amount symbol) VirtualPosition.drain l.bare n).1 := by
  unfold NetLedger.bare
  rw [positions_consume]
  refine Fifo.map_left (f := VirtualPosition.bare) (fun _ => rfl) (fun v k => ?_) l.positions n
  rcases drain_cases v k with ⟨h0, hd⟩ | ⟨h0, hd⟩
  · rw [hd, drain]
    exact if_pos h0
  · rw [hd, drain]
    exact if_neg h0

theorem bare_openVirtual (l : NetLedger) (d : ReportDeal) (side : Side) (volume : ℕ) (levels : Levels) :
    (l.openVirtual d side volume levels).bare =
      NetLedger.sorted (l.bare ++ [⟨d.ticket, d.symbol, side, volume, volume, .unset, d.timeMs⟩]) := by
  have hmap := map_insertionSort (fun v w : VirtualPosition => v.key ≤ w.key)
    (fun v w : VirtualPosition => v.key ≤ w.key) VirtualPosition.bare
    (l.positions ++ [⟨d.ticket, d.symbol, side, volume, volume, levels, d.timeMs⟩]) (fun _ _ _ _ => Iff.rfl)
  rw [map_append] at hmap
  exact hmap

theorem held_bare (l : NetLedger) (symbol : String) :
    l.held symbol = (l.bare.map (VirtualPosition.amount symbol)).sum := by
  rw [held_eq, NetLedger.bare, map_map]
  rfl

/-- A deal does the same to the ledger whatever the levels and names. -/
theorem bare_applyDeal (h : l.bare = l'.bare) (canonical canonical' : String) (levels levels' : Levels) :
    (l.applyDeal d canonical levels).1.bare = (l'.applyDeal d canonical' levels').1.bare := by
  have hheld : l.held d.symbol = l'.held d.symbol := by rw [held_bare, held_bare, h]
  have hconsume : ∀ n, (l.consume d.symbol canonical n).1.bare =
      (l'.consume d.symbol canonical' n).1.bare := by
    intro n
    rw [bare_consume, bare_consume, h]
  unfold applyDeal
  cases d.dealType.side with
  | none => exact h
  | some side =>
    simp only
    by_cases h0 : d.volume = 0
    · rw [if_pos h0, if_pos h0]
      exact h
    · rw [if_neg h0, if_neg h0]
      cases d.entry with
      | entryIn =>
        show (l.openVirtual _ _ _ _).bare = (l'.openVirtual _ _ _ _).bare
        rw [bare_openVirtual, bare_openVirtual, h]
      | entryOut | entryOutBy => exact hconsume d.volume
      | entryNone => exact h
      | entryInOut =>
        simp only
        unfold held at hheld
        rw [hheld]
        set held := ((l'.ofSymbol d.symbol).map volumeLeft).sum
        split_ifs
        · show (openVirtual _ _ _ _ _).bare = (openVirtual _ _ _ _ _).bare
          rw [bare_openVirtual, bare_openVirtual]
          have hc : (l.consume d.symbol canonical held).1.bare = (l'.consume d.symbol canonical' held).1.bare :=
            hconsume held
          exact congrArg (fun ps => sorted (ps ++ _)) hc
        · exact hconsume held

theorem bare_applyProtection (l : NetLedger) (symbol : String) (levels : Levels) :
    (l.applyProtection symbol levels).1.bare = l.bare := by
  unfold NetLedger.bare
  have hps := (foldl_markDirty_rest { l with positions := l.positions.map fun v =>
      if v.symbol = symbol then { v with levels := levels } else v }
    (((l.ofSymbol symbol).filter fun v => v.levels ≠ levels).map virtualId)).1
  have hps' : (l.applyProtection symbol levels).1.positions = l.positions.map fun v =>
      if v.symbol = symbol then { v with levels := levels } else v := hps
  rw [hps', map_map]
  refine map_congr_left fun v _ => ?_
  simp only [Function.comp, VirtualPosition.bare]
  split_ifs <;> rfl

end Bare

/-! ### The ledger of a report -/

section Report

variable {names : Names} {report : SyncReport} {known : List OrderSnapshot} {l l₀ : NetLedger}
  {t : LedgerTable} {tickets : List ℕ}

/-- The ledger of a netting master goes through every deal. -/
theorem dealStep_some (names : Names) (report : SyncReport) (known : List OrderSnapshot) (d : ReportDeal)
    (l : NetLedger) :
    ∃ levels, (dealStep names report known d (some l)).1 =
      some (l.applyDeal d (names.canonical d.symbol) levels).1 := by
  refine ⟨shownLevels (lookup ReportPosition.ticket report.positions d.position), ?_⟩
  unfold dealStep
  cases hs : d.dealType.side with
  | none => simp [applyDeal, hs]
  | some side =>
    simp only [nettingDeal]
    split_ifs <;> rfl

/-- The deals of a report, with tickets of their own, keep the promise to the table. -/
theorem dealLedger_kept (names : Names) (report : SyncReport) (known : List OrderSnapshot)
    (ds : List ReportDeal) (h : Kept l t tickets)
    (hnd : (ds.map ReportDeal.ticket).Nodup) (hnew : ∀ d ∈ ds, d.ticket ∉ tickets) (hb : l.bare = l₀.bare) :
    ∃ l', dealLedger names report known ds (some l) = some l' ∧
      Kept l' t ((ds.map ReportDeal.ticket).reverse ++ tickets) ∧
      l'.bare = (ds.foldl (fun l d => (l.applyDeal d d.symbol .unset).1) l₀).bare := by
  induction ds generalizing l l₀ tickets with
  | nil => exact ⟨l, rfl, h, hb⟩
  | cons d ds ih =>
    rw [map_cons, nodup_cons] at hnd
    obtain ⟨levels, hstep⟩ := dealStep_some names report known d l
    have hnew' : ∀ x ∈ ds, x.ticket ∉ d.ticket :: tickets := by
      intro x hx hm
      rcases mem_cons.1 hm with heq | hm
      · exact hnd.1 (heq ▸ mem_map_of_mem hx)
      · exact hnew x (mem_cons_of_mem d hx) hm
    have hk := h.applyDeal (hnew d mem_cons_self) (names.canonical d.symbol) levels
    have hb' := bare_applyDeal (d := d) hb (names.canonical d.symbol) d.symbol levels .unset
    obtain ⟨l', hl', hkept, hbare⟩ := ih hk hnd.2 hnew' hb'
    refine ⟨l', ?_, ?_, hbare⟩
    · rw [dealLedger, foldl_cons, hstep]
      exact hl'
    · simpa using hkept

/-- The comparison of the books changes levels only. -/
theorem protectionEvents_kept (prev : List PositionSnapshot) (ps : List ReportPosition) (h : Kept l t tickets) :
    ∃ l', (protectionEvents prev ps (some l)).1 = some l' ∧ Kept l' t tickets ∧ l'.bare = l.bare ∧
      l'.deleted = l.deleted := by
  induction ps generalizing l with
  | nil => exact ⟨l, rfl, h, rfl, rfl⟩
  | cons pos rest ih =>
    simp only [protectionEvents]
    split
    · exact ih h
    · split_ifs
      · exact ih h
      · obtain ⟨l', hl', hkept, hbare, hdel⟩ := ih (h.applyProtection pos.symbol pos.levels)
        refine ⟨l', hl', hkept, hbare.trans (bare_applyProtection _ _ _), hdel.trans ?_⟩
        exact (foldl_markDirty_rest _ _).2

theorem diffEvents_kept (previous : Option (List PositionSnapshot × List OrderSnapshot)) (h : Kept l t tickets) :
    ∃ l', (diffEvents names report previous (some l)).1 = some l' ∧ Kept l' t tickets ∧ l'.bare = l.bare ∧
      l'.deleted = l.deleted := by
  cases previous with
  | none => exact ⟨l, rfl, h, rfl, rfl⟩
  | some previous => exact protectionEvents_kept _ _ h

/-- The ids in the table are those the ledger has seen. -/
theorem Kept.persist_le (h : Kept l t tickets) {w : ℕ} (hw : ∀ i ∈ tickets, i ≤ w) :
    ∀ v ∈ (l.persist t).2.rows, v.virtualId ≤ w := by
  intro v hv
  have hmem : v ∈ (ofRows (l.persist t).2.rows).positions :=
    (perm_insertionSort _ _).mem_iff.2 hv
  rw [h.persist.1] at hmem
  exact hw _ (h.seen v hmem)

/-- A hedging master has no ledger. -/
theorem dealLedger_none (ds : List ReportDeal) : dealLedger names report known ds none = none := by
  induction ds with
  | nil => rfl
  | cons d ds ih =>
    have hd : (dealStep names report known d none).1 = none :=
      Option.not_isSome_iff_eq_none.1 (by rw [isSome_dealStep]; simp)
    rw [dealLedger, foldl_cons, hd]
    exact ih

theorem protectionEvents_none (prev : List PositionSnapshot) (ps : List ReportPosition) :
    (protectionEvents prev ps none).1 = none := by
  induction ps with
  | nil => rfl
  | cons pos rest ih =>
    simp only [protectionEvents]
    split
    · exact ih
    · split_ifs
      · exact ih
      · exact ih

/-- Deals that are no trades leave the ledger alone. -/
theorem dealLedger_quiet (ds : List ReportDeal) (hq : ∀ d ∈ ds, d.dealType.side = none) (l : Option NetLedger) :
    dealLedger names report known ds l = l := by
  induction ds with
  | nil => rfl
  | cons d ds ih =>
    have hd : (dealStep names report known d l).1 = l := by
      rw [dealStep]
      exact hq d mem_cons_self
    rw [dealLedger, foldl_cons, hd]
    exact ih fun x hx => hq x (mem_cons_of_mem d hx)

end Report

namespace MasterDesk

/-! ### Recovery -/

section Recovery

variable {cfg : MasterConfig} {s s' : MasterDesk} {deals : List ReportDeal}

/-- A crash inside a report tears it: the watermark is past a trade and the commits are not all made. -/
def Torn (cfg : MasterConfig) : MasterAction → MasterDesk → Prop
  | .sync deals (some k), s =>
    (∃ d ∈ s.fresh deals, d.dealType.side ≠ none) ∧ 1 < k ∧ k < (s.commits cfg deals).length
  | _, _ => False

instance (a : MasterAction) (s : MasterDesk) : Decidable (Torn cfg a s) := by
  unfold Torn
  split <;> infer_instance

/-- Nothing is lost. -/
structure Recovered (cfg : MasterConfig) (s : MasterDesk) : Prop where
  timely : s.Timely
  ledger : ∀ l, s.ledger = some l → l = NetLedger.ofRows s.disk.table.rows
  seen : ∀ v ∈ s.disk.table.rows, v.virtualId ≤ s.disk.watermark
  turned : ∀ d ∈ s.reported, d.dealType.side ≠ none → ∃ es, .deal d es ∈ s.disk.log
  bare : cfg.netting = true → (NetLedger.ofRows s.disk.table.rows).bare = (ledgerOf s.reported).bare

theorem recovered_init : Recovered cfg init where
  timely := timely_init
  ledger := nofun
  seen := nofun
  turned := nofun
  bare _ := rfl

section

variable (h : Recovered cfg s)
include h

/-- The terminal trades, or the copier restarts with the watermark where it was. -/
theorem Recovered.of_disk (ht : s'.Timely)
    (hd : s'.disk = { s.disk with deals := s'.disk.deals })
    (hh : ∃ ds, s'.history = s.history ++ ds ∧ ∀ d ∈ ds, s.disk.watermark < d.ticket)
    (hl : ∀ l, s'.ledger = some l → l = NetLedger.ofRows s.disk.table.rows) : Recovered cfg s' := by
  obtain ⟨ds, hh, hds⟩ := hh
  have hnil : ds.filter (fun d => d.ticket ≤ s.disk.watermark) = [] :=
    filter_eq_nil_iff.2 fun d hm => by simpa using hds d hm
  have hrep : s'.reported = s.reported := by
    rw [reported, reported, hh, hd, filter_append, hnil, append_nil]
  constructor
  case timely => exact ht
  case ledger => rwa [hd]
  case seen =>
    rw [hd]
    exact h.seen
  case turned =>
    rw [hrep, hd]
    exact h.turned
  case bare =>
    rw [hrep, hd]
    exact h.bare

/-- The ledger that a report starts from. -/
theorem Recovered.netLedger :
    s.netLedger cfg = if cfg.netting then some (NetLedger.ofRows s.disk.table.rows) else none := by
  unfold MasterDesk.netLedger
  cases hl : s.ledger with
  | none => rfl
  | some l => rw [Option.getD_some, h.ledger l hl]

/-- The deals of a report have tickets of their own. -/
theorem Recovered.fresh_nodup (hp : s.fresh deals <+: s.unseen) :
    ((s.fresh deals).map ReportDeal.ticket).Nodup := by
  have hsub : (s.fresh deals).Sublist s.history := hp.sublist.trans filter_sublist
  rw [Nodup, pairwise_map]
  exact (h.timely.ordered.sublist hsub).imp fun hlt => hlt.1.ne

/-- The ledger of a netting master after the deals. -/
theorem Recovered.afterDeals (hn : cfg.netting = true) (hp : s.fresh deals <+: s.unseen) :
    ∃ l tickets, s.afterDeals cfg deals = some l ∧ Kept l s.disk.table tickets ∧
      (∀ i ∈ tickets, i ≤ max s.disk.watermark (top (s.fresh deals))) ∧
      l.bare = (ledgerOf (s.reported ++ s.fresh deals)).bare := by
  set old := range (s.disk.watermark + 1)
  have hkept : Kept (ofRows s.disk.table.rows) s.disk.table old :=
    kept_ofRows fun v hv => mem_range.2 (Nat.lt_succ_of_le (h.seen v hv))
  have hnew : ∀ d ∈ s.fresh deals, d.ticket ∉ old := by
    intro d hd hm
    have hlt := lt_of_mem_unseen (hp.subset hd)
    have := mem_range.1 hm
    omega
  obtain ⟨l, hl, hk, hb⟩ := dealLedger_kept cfg.names (s.freshReport deals) (knownOrders s.previous)
    (s.fresh deals) hkept (h.fresh_nodup hp) hnew (h.bare hn)
  refine ⟨l, _, ?_, hk, ?_, ?_⟩
  · rw [MasterDesk.afterDeals, h.netLedger, if_pos hn]
    exact hl
  · intro i hi
    rcases mem_append.1 hi with hi | hi
    · obtain ⟨d, hd, rfl⟩ := mem_map.1 (mem_reverse.1 hi)
      exact le_max_of_le_right (top_le.1 le_rfl d hd)
    · exact le_max_of_le_left (Nat.le_of_lt_succ (mem_range.1 hi))
  · rw [hb, ledgerOf, ledgerOf, foldl_append]

/-- The ledger of a netting master when the books have been compared. -/
theorem Recovered.diff (hn : cfg.netting = true) (hp : s.fresh deals <+: s.unseen) :
    ∃ l tickets, (s.diff cfg deals).1 = some l ∧ Kept l s.disk.table tickets ∧
      (∀ i ∈ tickets, i ≤ max s.disk.watermark (top (s.fresh deals))) ∧
      l.bare = (ledgerOf (s.reported ++ s.fresh deals)).bare ∧
      ((∀ d ∈ s.fresh deals, d.dealType.side = none) →
        l.deleted = [] ∧ l.bare = (NetLedger.ofRows s.disk.table.rows).bare) := by
  obtain ⟨l₁, tickets, hl₁, hk₁, hle, hb₁⟩ := h.afterDeals hn hp
  obtain ⟨l₂, hl₂, hk₂, hb₂, hd₂⟩ : ∃ l, (s.diff cfg deals).1 = some l ∧ Kept l s.disk.table _ ∧ l.bare = l₁.bare ∧
      l.deleted = l₁.deleted := by
    rw [MasterDesk.diff, hl₁]
    exact diffEvents_kept s.previous hk₁
  refine ⟨l₂, tickets, hl₂, hk₂, hle, hb₂.trans hb₁, fun hq => ?_⟩
  rw [MasterDesk.afterDeals, dealLedger_quiet _ hq, h.netLedger, if_pos hn] at hl₁
  cases hl₁
  exact ⟨hd₂, hb₂⟩

end

theorem diff_hedging (hn : cfg.netting = false) : (s.diff cfg deals).1 = none := by
  have hnet : s.netLedger cfg = none := if_neg (by simp [hn])
  have hafter : s.afterDeals cfg deals = none := by rw [afterDeals, hnet, dealLedger_none]
  rw [MasterDesk.diff, hafter]
  cases s.previous with
  | none => rfl
  | some previous => exact protectionEvents_none _ _

section

variable (h : Recovered cfg s)
include h

/-- The watermark moves behind the report's deals. -/
theorem Recovered.advance (ht : s'.Timely) (hp : s.fresh deals <+: s.unseen)
    (hh : s'.history = s.history)
    (hw : s'.disk.watermark = max s.disk.watermark (top (s.fresh deals)))
    (hlog : ∀ d es, Acted.deal d es ∈ s.disk.log → .deal d es ∈ s'.disk.log)
    (hturned : ∀ d ∈ s.fresh deals, d.dealType.side ≠ none → ∃ es, .deal d es ∈ s'.disk.log)
    (hl : ∀ l, s'.ledger = some l → l = NetLedger.ofRows s'.disk.table.rows)
    (hseen : ∀ v ∈ s'.disk.table.rows, v.virtualId ≤ s'.disk.watermark)
    (hbare : cfg.netting = true →
      (NetLedger.ofRows s'.disk.table.rows).bare = (ledgerOf (s.reported ++ s.fresh deals)).bare) :
    Recovered cfg s' := by
  have hrep : s'.reported = s.reported ++ s.fresh deals := reported_advance h.timely.ordered hp hw hh rfl
  constructor
  case timely => exact ht
  case ledger => exact hl
  case seen => exact hseen
  case turned =>
    intro d hd hside
    rw [hrep] at hd
    rcases mem_append.1 hd with hd | hd
    · obtain ⟨es, hes⟩ := h.turned d hd hside
      exact ⟨es, hlog d es hes⟩
    · exact hturned d hd hside
  case bare =>
    rw [hrep]
    exact hbare

/-- All commits are made: a report that was handled, or a crash right after. -/
theorem Recovered.commits (ht : s'.Timely) (hp : s.fresh deals <+: s.unseen)
    (hh : s'.history = s.history)
    (hdisk : s'.disk = (s.commits cfg deals).foldl Commit.apply s.disk)
    (hl : ∀ l, s'.ledger = some l → (s.diff cfg deals).1.map (fun l => l.dirtyRows.1) = some l) :
    Recovered cfg s' := by
  obtain ⟨ds, hall⟩ := disk_commits cfg s deals
  rw [hall] at hdisk
  have hw : s'.disk.watermark = max s.disk.watermark (top (s.fresh deals)) := by rw [hdisk]
  have hlog : s'.disk.log = s.disk.log ++ s.acts cfg deals := by rw [hdisk]
  have hturned : ∀ d ∈ s.fresh deals, ∃ es, Acted.deal d es ∈ s'.disk.log := by
    intro d hd
    obtain ⟨es, hes⟩ := mem_acts cfg hd
    exact ⟨es, hlog ▸ mem_append_right _ hes⟩
  have hold : ∀ d es, Acted.deal d es ∈ s.disk.log → .deal d es ∈ s'.disk.log :=
    fun d es hm => hlog ▸ mem_append_left _ hm
  cases hn : cfg.netting with
  | false =>
    have htable : s'.disk.table = s.disk.table := by rw [hdisk, diff_hedging hn, Option.elim_none]
    rw [diff_hedging hn] at hl
    refine h.advance ht hp hh hw hold (fun d hd _ => hturned d hd) (fun l hm => nomatch hl l hm) ?_
      fun hn' => absurd hn' (by simp [hn])
    rw [htable, hw]
    exact fun v hv => (h.seen v hv).trans (le_max_left _ _)
  | true =>
    obtain ⟨l, tickets, hdiff, hkept, hle, hbare, -⟩ := h.diff hn hp
    have htable : s'.disk.table = (l.persist s.disk.table).2 := by rw [hdisk, hdiff, Option.elim_some]
    rw [hdiff] at hl
    have hload : ofRows s'.disk.table.rows = l.dirtyRows.1 := by
      rw [htable]
      exact hkept.persist.1
    refine h.advance ht hp hh hw hold (fun d hd _ => hturned d hd) ?_ ?_ ?_
    · intro l' hm
      rw [hload]
      exact (Option.some.inj (hl l' hm)).symm
    · rw [htable, hw]
      exact hkept.persist_le hle
    · intro _
      rw [hload]
      exact hbare

/-- A crash before the watermark. -/
theorem Recovered.early (hf : s.fresh deals ≠ []) {k : ℕ} (hk : k ≤ 1)
    (ht : (s.crashed (((s.commits cfg deals).take k).foldl Commit.apply s.disk)).Timely) :
    Recovered cfg (s.crashed (((s.commits cfg deals).take k).foldl Commit.apply s.disk)) := by
  obtain ⟨ds, w, hmarks, hw, -⟩ := take_marks s deals k
  have hdisk : ((s.commits cfg deals).take k).foldl Commit.apply s.disk = { s.disk with deals := ds } := by
    rw [take_commits, hmarks, length_marks hf, Nat.sub_eq_zero_of_le (by omega), Nat.sub_eq_zero_of_le (by omega),
      hw hk]
    simp
  rw [hdisk] at ht ⊢
  exact h.of_disk ht rfl ⟨[], (append_nil _).symm, forall_mem_nil _⟩ fun _ hl => by cases hl

/-- A crash in a report without a trade. -/
theorem Recovered.quiet (hp : s.fresh deals <+: s.unseen)
    (hq : ∀ d ∈ s.fresh deals, d.dealType.side = none) {k : ℕ} (hk : s.fresh deals = [] ∨ 1 < k)
    (ht : (s.crashed (((s.commits cfg deals).take k).foldl Commit.apply s.disk)).Timely) :
    Recovered cfg (s.crashed (((s.commits cfg deals).take k).foldl Commit.apply s.disk)) := by
  obtain ⟨ds, w, hmarks, -, hw⟩ := take_marks s deals k
  have hw := hw hk
  have hdisk := take_commits cfg s deals k
  rw [hmarks] at hdisk
  generalize (s.acts cfg deals).take (k - (s.marks deals).length) = xs at hdisk
  generalize k - ((s.marks deals).length + (s.acts cfg deals).length) = j at hdisk
  rw [hdisk] at ht ⊢
  -- the ledger has at most one commit, so the table is the old one or the new one
  have htable : ∃ t, ((ledgerCommits (s.diff cfg deals).1).take j).foldl Commit.apply
        { s.disk with deals := ds, watermark := w, log := s.disk.log ++ xs } =
      { s.disk with deals := ds, watermark := w, table := t, log := s.disk.log ++ xs } ∧
      (∀ v ∈ t.rows, v.virtualId ≤ w) ∧
      (cfg.netting = true → (ofRows t.rows).bare = (ledgerOf (s.reported ++ s.fresh deals)).bare) := by
    have hold : ∀ v ∈ s.disk.table.rows, v.virtualId ≤ w :=
      fun v hv => (h.seen v hv).trans (hw ▸ le_max_left _ _)
    cases hn : cfg.netting with
    | false =>
      rw [diff_hedging hn, ledgerCommits, take_nil]
      exact ⟨s.disk.table, rfl, hold, fun hn => by cases hn⟩
    | true =>
      obtain ⟨l, tickets, hdiff, hkept, hle, hbare, hquiet⟩ := h.diff hn hp
      obtain ⟨hdel, hsame⟩ := hquiet hq
      rw [hdiff]
      by_cases hj : (ledgerCommits (some l)).length ≤ j
      · rw [take_of_length_le hj, foldl_ledgerCommits]
        refine ⟨(l.persist s.disk.table).2, rfl, hkept.persist_le (hw ▸ hle), fun _ => ?_⟩
        rw [hkept.persist.1]
        exact hbare
      · have hj0 : j = 0 := by
          have := length_ledgerCommits hdel
          omega
        rw [hj0]
        exact ⟨s.disk.table, rfl, hold, fun _ => hsame.symm.trans hbare⟩
  obtain ⟨t, htable, hseen, hbare⟩ := htable
  rw [htable] at ht ⊢
  refine h.advance ht hp rfl hw ?_ ?_ (fun _ hl => by cases hl) hseen hbare
  · exact fun d es hm => mem_append_left _ hm
  · exact fun d hd hside => absurd (hq d hd) hside

end

theorem Recovered.step {a : MasterAction} (ha : ¬ Torn cfg a s) (h : Recovered cfg s)
    (hf : fire cfg a s = some s') : Recovered cfg s' := by
  have ht : s'.Timely := h.timely.step hf
  cases a with
  | trade d positions orders =>
    simp only [fire] at hf
    split_ifs at hf with hc
    cases hf
    obtain ⟨⟨⟨h0, hd⟩, -⟩, -⟩ := hc
    refine h.of_disk ht rfl ⟨[d], rfl, ?_⟩ h.ledger
    simpa using h.timely.known d.ticket h0 fun x hx => (hd x hx).1
  | book positions orders =>
    simp only [fire] at hf
    split_ifs at hf
    cases hf
    exact h.of_disk ht rfl ⟨[], (append_nil _).symm, forall_mem_nil _⟩ h.ledger
  | sync deals cut =>
    simp only [fire] at hf
    split_ifs at hf with hp
    have hp := fresh_reported h.timely.ordered hp
    cases cut with
    | none =>
      cases hf
      exact h.commits ht hp rfl rfl fun _ hl => hl
    | some k =>
      cases hf
      by_cases hk : (s.commits cfg deals).length ≤ k
      · rw [take_of_length_le hk] at ht ⊢
        exact h.commits ht hp rfl rfl fun _ hl => by cases hl
      · by_cases hearly : s.fresh deals ≠ [] ∧ k ≤ 1
        · exact h.early hearly.1 hearly.2 ht
        · rw [not_and_or, not_not, not_le] at hearly
          refine h.quiet hp ?_ hearly ht
          intro d hd
          by_contra hside
          have hlate : 1 < k := hearly.resolve_left (ne_nil_of_mem hd)
          exact ha ⟨⟨d, hd, hside⟩, hlate, by omega⟩
  | restart =>
    cases hf
    exact h.of_disk ht rfl ⟨[], (append_nil _).symm, forall_mem_nil _⟩ fun _ hl => by cases hl

/-- **A report that is not torn is never lost.**  In every state that a run without a torn report reaches,
every trade behind the watermark has been turned into its events, and the ledger of a netting master, in
its table and once loaded, is the ledger of the deals behind the watermark. -/
theorem report_recovered {s : MasterDesk} (h : Machine.Run (fire cfg) (fun a s => ¬ Torn cfg a s) init s) :
    (∀ d ∈ s.history, d.ticket ≤ s.disk.watermark → d.dealType.side ≠ none →
        ∃ es, .deal d es ∈ s.disk.log) ∧
      (cfg.netting = true →
        (NetLedger.ofRows s.disk.table.rows).bare =
          (ledgerOf (s.history.filter fun d => d.ticket ≤ s.disk.watermark)).bare) ∧
      ∀ l, s.ledger = some l → l = NetLedger.ofRows s.disk.table.rows := by
  have hr : Recovered cfg s := h.invariant recovered_init fun _ _ _ ha hi hf => hi.step ha hf
  refine ⟨fun d hd hle => hr.turned d (mem_filter.2 ⟨hd, by simpa using hle⟩), hr.bare, hr.ledger⟩

/-- A netting master that trades under its own names. -/
def sampleMaster : MasterConfig := ⟨true, ⟨fun _ => none, fun _ => none⟩, fun _ => "EURUSD"⟩

/-- It buys 100. -/
def sampleBuy : ReportDeal := ⟨1, 7, 0, "EURUSD", .buy, .entryIn, 100, 1, 1⟩

/-- The copier crashes before the watermark; the deal is sent again. -/
theorem report_recovered_sample :
    ∃ s, Machine.Run (fire sampleMaster) (fun a s => ¬ Torn sampleMaster a s) init s ∧
      (s.history = [sampleBuy] ∧ s.disk.watermark = 1) ∧
      (NetLedger.ofRows s.disk.table.rows).bare = (ledgerOf s.history).bare ∧
      ∃ es, .deal sampleBuy es ∈ s.disk.log := by
  refine Machine.exists_run_and [.trade sampleBuy [⟨7, "EURUSD", 100, .unset⟩] [], .sync [sampleBuy] (some 1),
    .sync [sampleBuy] none] init ?_
  rintro s hr ⟨hh, hw⟩
  obtain ⟨hturned, hbare, -⟩ := report_recovered hr
  have hrep : (s.history.filter fun d => d.ticket ≤ s.disk.watermark) = s.history := by
    rw [hh, hw]
    rfl
  rw [hrep] at hbare
  refine ⟨hbare rfl, hturned sampleBuy ?_ ?_ nofun⟩
  · simp [hh]
  · simp [hw, sampleBuy]

/-- **A torn report is lost**: after the watermark and before the events.  The next report is handled in
full; the deal is behind the watermark, nothing was done about it, and the ledger does not have it. -/
theorem torn_report_lost :
    ∃ s, Machine.Run (fire sampleMaster) (fun _ _ => True) init s ∧ s.previous ≠ none ∧
      s.history = [sampleBuy] ∧ s.disk.watermark = 1 ∧ s.disk.log = [] ∧ s.ledger.map NetLedger.bare = some [] ∧
      (ledgerOf s.history).bare = [⟨1, "EURUSD", .buy, 100, 100, .unset, 1⟩] :=
  Machine.exists_run [.trade sampleBuy [⟨7, "EURUSD", 100, .unset⟩] [], .sync [sampleBuy] (some 2), .sync [] none]
    init (by decide)

/-! ### At most once -/

def ofDeal : Acted → Option ReportDeal
  | .deal d _ => some d
  | .diff _ => none

/-- The deals that were acted on. -/
def acted (s : MasterDesk) : List ReportDeal := s.disk.log.filterMap ofDeal

theorem ofDeal_acts (cfg : MasterConfig) (s : MasterDesk) (deals : List ReportDeal) :
    (s.acts cfg deals).filterMap ofDeal = s.fresh deals := by
  have hfst : (s.trace cfg deals).map Prod.fst = s.fresh deals := trace_fst _ _
  simpa [acts, filterMap_map, Function.comp_def, ofDeal] using hfst

/-- What a report acts on comes behind the watermark together with its deals. -/
theorem acted_advance (ho : s.Ordered) (h : s.acted.Sublist s.reported)
    (hp : s.fresh deals <+: s.unseen) (hh : s'.history = s.history)
    (hw : s'.disk.watermark = max s.disk.watermark (top (s.fresh deals))) {xs : List Acted}
    (hlog : s'.disk.log = s.disk.log ++ xs) (hxs : xs.Sublist (s.acts cfg deals)) :
    s'.acted.Sublist s'.reported := by
  rw [reported_advance ho hp hw hh rfl, acted, hlog, filterMap_append, ← ofDeal_acts cfg s deals]
  exact h.append (hxs.filterMap _)

theorem acted_step {a : MasterAction} (ht : s.Timely) (h : s.acted.Sublist s.reported)
    (hf : fire cfg a s = some s') :
    s'.acted.Sublist s'.reported := by
  cases a with
  | trade d positions orders =>
    simp only [fire] at hf
    split_ifs at hf
    cases hf
    exact h.trans ((sublist_append_left _ _).filter _)
  | book positions orders =>
    simp only [fire] at hf
    split_ifs at hf
    cases hf
    exact h
  | sync deals cut =>
    simp only [fire] at hf
    split_ifs at hf with hp
    have hp := fresh_reported ht.ordered hp
    cases cut with
    | none =>
      cases hf
      obtain ⟨ds, hdisk⟩ := disk_commits cfg s deals
      exact acted_advance ht.ordered h hp rfl (congrArg Disk.watermark hdisk) (congrArg Disk.log hdisk)
        (Sublist.refl _)
    | some k =>
      cases hf
      obtain ⟨ds, w, t, hdisk, hw, hw'⟩ := disk_take cfg s deals k
      by_cases hk : s.fresh deals = [] ∨ 1 < k
      · exact acted_advance ht.ordered h hp rfl ((congrArg Disk.watermark hdisk).trans (hw' hk))
          (congrArg Disk.log hdisk) (take_sublist _ _)
      · -- the crash comes before the watermark: nothing was done
        rw [not_or, not_lt] at hk
        have hnone : k - (s.marks deals).length = 0 := by
          rw [length_marks hk.1]
          omega
        rw [hnone, take_zero, append_nil, hw hk.2] at hdisk
        simpa only [acted, reported, crashed, hdisk] using h
  | restart =>
    cases hf
    exact h

/-- **A deal is acted on at most once**, whatever reports, crashes and restarts a run has: what was acted on are
deals behind the watermark, in the order of their tickets. -/
theorem acted_at_most_once (h : Machine.Run (fire cfg) (fun _ _ => True) init s) :
    s.acted.Sublist s.reported ∧ s.acted.Pairwise fun x y => x.ticket < y.ticket := by
  obtain ⟨ht, hs⟩ := h.invariant (P := fun s => s.Timely ∧ s.acted.Sublist s.reported)
    ⟨timely_init, Sublist.refl _⟩
    fun _ _ _ _ hi hf => ⟨hi.1.step hf, acted_step hi.1 hi.2 hf⟩
  exact ⟨hs, (ht.ordered.sublist (hs.trans filter_sublist)).imp And.left⟩

/-- A report that crashed before the watermark comes again, and once more after a restart. -/
theorem acted_at_most_once_sample : ∃ s, Machine.Run (fire sampleMaster) (fun _ _ => True) init s ∧
    s.acted = [sampleBuy] ∧ s.acted.Pairwise fun x y => x.ticket < y.ticket := by
  refine Machine.exists_run_and [.trade sampleBuy [⟨7, "EURUSD", 100, .unset⟩] [], .sync [sampleBuy] (some 1),
    .sync [sampleBuy] none, .restart, .sync [sampleBuy] none] init ?_
  intro s hr _
  exact (acted_at_most_once hr).2

end Recovery

end MasterDesk

end Copier.Mt5
