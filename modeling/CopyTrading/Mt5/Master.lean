import CopyTrading.Mt5.DealTrace
import CopyTrading.Mt5.LedgerTable

/-!
# Mt5.Master — an MT5 master's terminal and the copier that follows its reports (`mt5_sync`)

The terminal trades and keeps its book; it reports the book and the deals past the watermark.  A report is
handled by a sequence of separate commits: the deals, the watermark, what is done about each event, and for a
netting master the ledger's upserts and deletes.  A crash keeps a first part of the commits and loses what is
only in memory: the previous report and the ledger.
-/

namespace Copier.Mt5

open List

/-! ### The database -/

/-- Something the copier did about a report: the events of one deal, or an event of the books. -/
inductive Acted where
  | deal (d : ReportDeal) (events : List MasterEvent)
  | diff (e : MasterEvent)
  deriving DecidableEq

/-- The events that were acted on. -/
def Acted.events : Acted → List MasterEvent
  | .deal _ events => events
  | .diff e => [e]

/-- What survives a crash; the log stands for the mappings and commands that the events led to. -/
structure Disk where
  deals : List ℕ
  watermark : ℕ
  table : LedgerTable
  log : List Acted

/-- One commit of `mt5_sync`.  A crash between the events of one deal leaves the deal unfinished, so they
are one commit. -/
inductive Commit where
  | upsertDeals (tickets : List ℕ)
  | setWatermark (ticket : ℕ)
  | act (x : Acted)
  | upsertLedger (rows : List VirtualPosition)
  | deleteLedger (ids : List ℕ)

/-- A commit reaches the disk. -/
def Commit.apply (disk : Disk) : Commit → Disk
  | .upsertDeals tickets => { disk with deals := disk.deals ++ tickets.filter (· ∉ disk.deals) }
  | .setWatermark ticket => { disk with watermark := max disk.watermark ticket }
  | .act x => { disk with log := disk.log ++ [x] }
  | .upsertLedger rows => { disk with table := rows.foldl (WriteBehind.upsert refreshed) disk.table }
  | .deleteLedger ids => { disk with table := disk.table.delete ids }

/-! ### The desk -/

/-- What is the same for the whole life of the desk; a ticket never changes its symbol. -/
structure MasterConfig where
  netting : Bool
  names : Names
  symbolOf : ℕ → String

/-- The copier's view of one master, with its terminal. -/
structure MasterDesk where
  /-- The terminal: its deals, its book, and the tickets of every pending order it ever had. -/
  history : List ReportDeal
  positions : List ReportPosition
  orders : List ReportOrder
  pendings : List ℕ
  disk : Disk
  /-- The copier's memory: the book of the previous report, and the ledger once it was loaded. -/
  previous : Option (List PositionSnapshot × List OrderSnapshot)
  ledger : Option NetLedger

/-- What happens next. -/
inductive MasterAction where
  /-- A deal, and the book after it. -/
  | trade (d : ReportDeal) (positions : List ReportPosition) (orders : List ReportOrder)
  /-- The book changes without a deal: levels, new and cancelled orders. -/
  | book (positions : List ReportPosition) (orders : List ReportOrder)
  /-- A report with these deals; `cut` is the number of commits before a crash. -/
  | sync (deals : List ReportDeal) (cut : Option ℕ)
  | restart
  deriving DecidableEq

/-- `snapshot` without labels. -/
def bookSnapshot (positions : List ReportPosition) (orders : List ReportOrder) :
    List PositionSnapshot × List OrderSnapshot :=
  (positions.map fun p => ⟨p.ticket, p.levels⟩, orders.map fun o => ⟨o.ticket, o.volume, o.price, o.levels⟩)

namespace MasterDesk

variable (cfg : MasterConfig) (s : MasterDesk)

/-- A netting account has one position a symbol. -/
def GoodBook (positions : List ReportPosition) (orders : List ReportOrder) : Prop :=
  (positions.map ReportPosition.ticket).Nodup ∧ (∀ p ∈ positions, p.symbol = cfg.symbolOf p.ticket) ∧
    (cfg.netting = true → (positions.map ReportPosition.symbol).Nodup) ∧ ∀ o ∈ orders, o.ticket ≠ 0

instance (positions : List ReportPosition) (orders : List ReportOrder) :
    Decidable (GoodBook cfg positions orders) := inferInstanceAs (Decidable (_ ∧ _))

/-- Deals come with growing tickets and times; a deal places no order and takes at most its own out of the
book, and a deal that names an order that is or was pending is a fill of one in the book. -/
def CanTrade (d : ReportDeal) (orders : List ReportOrder) : Prop :=
  (0 < d.ticket ∧ ∀ x ∈ s.history, x.ticket < d.ticket ∧ x.key ≤ d.key) ∧
    (∀ o ∈ orders, o.ticket ∈ s.orders.map ReportOrder.ticket) ∧
    (∀ o ∈ s.orders, o.ticket ≠ d.order → o.ticket ∈ orders.map ReportOrder.ticket) ∧
    (d.order ∈ s.orders.map ReportOrder.ticket ∨ d.order ∉ s.pendings)

instance (d : ReportDeal) (orders : List ReportOrder) : Decidable (s.CanTrade d orders) :=
  inferInstanceAs (Decidable (_ ∧ _))

/-- The deals past the watermark. -/
def unseen : List ReportDeal := s.history.filter fun d => s.disk.watermark < d.ticket

/-- The deals of a report that are past the watermark, in time order (`_ingest_mt5_deals`). -/
def fresh (deals : List ReportDeal) : List ReportDeal :=
  sortedDeals (deals.filter fun d => s.disk.watermark < d.ticket)

/-- `net_ledger`: loaded on first use. -/
def netLedger : Option NetLedger :=
  if cfg.netting then some (s.ledger.getD (NetLedger.ofRows s.disk.table.rows)) else none

/-- The report that the events are made of. -/
def freshReport (deals : List ReportDeal) : SyncReport := ⟨s.positions, s.orders, s.fresh deals⟩

def trace (deals : List ReportDeal) : List (ReportDeal × List MasterEvent) :=
  dealTrace cfg.names (s.freshReport deals) (knownOrders s.previous) (s.fresh deals) (s.netLedger cfg)

/-- The ledger after the deals. -/
def afterDeals (deals : List ReportDeal) : Option NetLedger :=
  dealLedger cfg.names (s.freshReport deals) (knownOrders s.previous) (s.fresh deals) (s.netLedger cfg)

def diff (deals : List ReportDeal) : Option NetLedger × List MasterEvent :=
  diffEvents cfg.names (s.freshReport deals) s.previous (s.afterDeals cfg deals)

/-- What the copier does about the report. -/
def acts (deals : List ReportDeal) : List Acted :=
  ((s.trace cfg deals).map fun x => .deal x.1 x.2) ++ (s.diff cfg deals).2.map .diff

theorem events_acts (deals : List ReportDeal) : (s.acts cfg deals).flatMap Acted.events =
      (s.trace cfg deals).flatMap Prod.snd ++ (s.diff cfg deals).2 := by
  have hdiff : ((s.diff cfg deals).2.map Acted.diff).flatMap Acted.events = (s.diff cfg deals).2 := by
    rw [flatMap_map]
    exact flatMap_singleton' _
  have hdeals : ((s.trace cfg deals).map fun x => Acted.deal x.1 x.2).flatMap Acted.events =
      (s.trace cfg deals).flatMap Prod.snd := flatMap_map _ _ _
  rw [acts, flatMap_append, hdeals, hdiff]

/-- `_persist_net_ledger`. -/
def ledgerCommits (l : Option NetLedger) : List Commit :=
  match l with
  | none => []
  | some l =>
    (if l.dirtyRows.2.1 = [] then [] else [.upsertLedger l.dirtyRows.2.1]) ++
      if l.dirtyRows.2.2 = [] then [] else [.deleteLedger l.dirtyRows.2.2]

/-- The highest ticket. -/
def top (ds : List ReportDeal) : ℕ := (ds.map ReportDeal.ticket).foldl max 0

/-- The commits before the first event: the deals and the watermark. -/
def marks (deals : List ReportDeal) : List Commit :=
  if s.fresh deals = [] then []
  else [.upsertDeals ((s.fresh deals).map ReportDeal.ticket), .setWatermark (top (s.fresh deals))]

/-- The commits of a report, in order. -/
def commits (deals : List ReportDeal) : List Commit :=
  s.marks deals ++ (s.acts cfg deals).map .act ++ ledgerCommits (s.diff cfg deals).1

/-- The copier's memory is gone. -/
def crashed (disk : Disk) : MasterDesk := { s with disk := disk, previous := none, ledger := none }

/-- The report has been handled. -/
def handled (deals : List ReportDeal) : MasterDesk :=
  { s with
    disk := (s.commits cfg deals).foldl Commit.apply s.disk
    previous := some (bookSnapshot s.positions s.orders)
    ledger := (s.diff cfg deals).1.map fun l => l.dirtyRows.1 }

/-- One action; `none` where it cannot happen. -/
def fire : MasterAction → MasterDesk → Option MasterDesk
  | .trade d positions orders, s =>
    if s.CanTrade d orders ∧ GoodBook cfg positions orders then
      some { s with history := s.history ++ [d], positions := positions, orders := orders }
    else none
  | .book positions orders, s =>
    if (∀ o ∈ orders, o.ticket ∈ s.orders.map ReportOrder.ticket ∨ o.ticket ∉ s.pendings) ∧
        GoodBook cfg positions orders then
      some { s with
        positions := positions, orders := orders
        pendings := orders.map ReportOrder.ticket ++ s.pendings }
    else none
  | .sync deals cut, s =>
    -- the terminal sends the deals past the watermark from the oldest on, and may send older ones again
    if (deals.filter fun d => s.disk.watermark < d.ticket) <+: s.unseen then
      match cut with
      | none => some (s.handled cfg deals)
      | some k => some (s.crashed (((s.commits cfg deals).take k).foldl Commit.apply s.disk))
    else none
  | .restart, s => some (s.crashed s.disk)

/-- A new account. -/
def init : MasterDesk := ⟨[], [], [], [], ⟨[], 0, .empty, []⟩, none, none⟩

/-! ### The commits of a report -/

section Commits

variable {cfg : MasterConfig} {s : MasterDesk} {deals : List ReportDeal} {ds : List ReportDeal}
  {d : ReportDeal}

theorem top_le {m : ℕ} : top ds ≤ m ↔ ∀ d ∈ ds, d.ticket ≤ m := by
  rw [top, foldl_max_le]
  simp

theorem top_lt {m : ℕ} (hm : 0 < m) (h : ∀ d ∈ ds, d.ticket < m) : top ds < m := by
  have hle : top ds ≤ m - 1 := top_le.2 fun d hd => Nat.le_sub_one_of_lt (h d hd)
  omega

theorem foldl_acts (disk : Disk) (xs : List Acted) :
    (xs.map Commit.act).foldl Commit.apply disk = { disk with log := disk.log ++ xs } := by
  induction xs generalizing disk with
  | nil => simp
  | cons x xs ih => simp [ih, Commit.apply]

/-- **A first part of the commits**: first the marks, then the events, then the ledger. -/
theorem take_commits (cfg : MasterConfig) (s : MasterDesk) (deals : List ReportDeal) (k : ℕ) :
    ((s.commits cfg deals).take k).foldl Commit.apply s.disk =
      ((ledgerCommits (s.diff cfg deals).1).take
          (k - ((s.marks deals).length + (s.acts cfg deals).length))).foldl Commit.apply
        { ((s.marks deals).take k).foldl Commit.apply s.disk with
          log := (((s.marks deals).take k).foldl Commit.apply s.disk).log ++
            (s.acts cfg deals).take (k - (s.marks deals).length) } := by
  rw [commits, take_append, take_append, foldl_append, foldl_append, ← map_take,
    foldl_acts, length_append, length_map]

/-- The marks move the watermark, unless the crash comes first. -/
theorem take_marks (s : MasterDesk) (deals : List ReportDeal) (k : ℕ) :
    ∃ ds w, ((s.marks deals).take k).foldl Commit.apply s.disk = { s.disk with deals := ds, watermark := w } ∧
      (k ≤ 1 → w = s.disk.watermark) ∧
      (s.fresh deals = [] ∨ 1 < k → w = max s.disk.watermark (top (s.fresh deals))) := by
  unfold marks
  split_ifs with h
  · refine ⟨s.disk.deals, s.disk.watermark, by simp, fun _ => rfl, fun _ => ?_⟩
    simp [h, top]
  · match k with
    | 0 => exact ⟨s.disk.deals, s.disk.watermark, rfl, fun _ => rfl, by simp [h]⟩
    | 1 => exact ⟨_, s.disk.watermark, rfl, fun _ => rfl, by simp [h]⟩
    | k + 2 =>
      rw [take_of_length_le (by simp)]
      exact ⟨_, _, rfl, by omega, fun _ => rfl⟩

/-- The ledger's commits are about its table. -/
theorem foldl_take_ledgerCommits (l : Option NetLedger) (j : ℕ) (disk : Disk) :
    ∃ t, ((ledgerCommits l).take j).foldl Commit.apply disk = { disk with table := t } := by
  have hall : ∀ cs : List Commit, (∀ c ∈ cs, ∀ disk : Disk, ∃ t, c.apply disk = { disk with table := t }) →
      ∀ disk : Disk, ∃ t, cs.foldl Commit.apply disk = { disk with table := t } := by
    intro cs
    induction cs with
    | nil => exact fun _ disk => ⟨disk.table, rfl⟩
    | cons c cs ih =>
      intro h disk
      obtain ⟨t, ht⟩ := h c mem_cons_self disk
      obtain ⟨t', ht'⟩ := ih (fun c hc => h c (mem_cons_of_mem _ hc)) { disk with table := t }
      exact ⟨t', by rw [foldl_cons, ht, ht']⟩
  refine hall _ (fun c hc disk => ?_) disk
  have hc := mem_of_mem_take hc
  cases l with
  | none => cases hc
  | some l =>
    rcases mem_append.1 hc with hc | hc
    · split_ifs at hc
      · cases hc
      · exact ⟨_, by rw [mem_singleton.1 hc]; rfl⟩
    · split_ifs at hc
      · cases hc
      · exact ⟨_, by rw [mem_singleton.1 hc]; rfl⟩

/-- What a crash after `k` commits leaves of the log and the watermark. -/
theorem disk_take (cfg : MasterConfig) (s : MasterDesk) (deals : List ReportDeal) (k : ℕ) :
    ∃ ds w t, ((s.commits cfg deals).take k).foldl Commit.apply s.disk =
        ⟨ds, w, t, s.disk.log ++ (s.acts cfg deals).take (k - (s.marks deals).length)⟩ ∧
      (k ≤ 1 → w = s.disk.watermark) ∧
      (s.fresh deals = [] ∨ 1 < k → w = max s.disk.watermark (top (s.fresh deals))) := by
  obtain ⟨ds, w, hmarks, hw⟩ := take_marks s deals k
  rw [take_commits, hmarks]
  obtain ⟨t, ht⟩ := foldl_take_ledgerCommits (s.diff cfg deals).1
    (k - ((s.marks deals).length + (s.acts cfg deals).length)) _
  exact ⟨ds, w, t, ht, hw⟩

/-- Every deal is acted on, before the books are compared. -/
theorem mem_take_acts (cfg : MasterConfig) (h : d ∈ s.fresh deals) {k : ℕ}
    (hk : (s.fresh deals).length ≤ k) : ∃ es, .deal d es ∈ (s.acts cfg deals).take k := by
  have hfst : (s.trace cfg deals).map Prod.fst = s.fresh deals := trace_fst _ _
  have hlen : (s.trace cfg deals).length = (s.fresh deals).length := by rw [← hfst, length_map]
  rw [← hfst] at h
  obtain ⟨x, hx, rfl⟩ := mem_map.1 h
  refine ⟨x.2, ?_⟩
  rw [acts, take_append, take_of_length_le (by rw [length_map]; omega)]
  exact mem_append_left _ (mem_map_of_mem (f := fun x => Acted.deal x.1 x.2) hx)

theorem mem_acts (cfg : MasterConfig) (h : d ∈ s.fresh deals) :
    ∃ es, .deal d es ∈ s.acts cfg deals := by
  obtain ⟨es, hes⟩ := mem_take_acts cfg h le_rfl
  exact ⟨es, mem_of_mem_take hes⟩

theorem length_marks (h : s.fresh deals ≠ []) : (s.marks deals).length = 2 := by
  unfold marks
  rw [if_neg h]
  rfl

theorem foldl_ledgerCommits (l : Option NetLedger) (disk : Disk) :
    (ledgerCommits l).foldl Commit.apply disk =
      { disk with table := l.elim disk.table fun l => (l.persist disk.table).2 } := by
  cases l with
  | none => rfl
  | some l =>
    unfold ledgerCommits NetLedger.persist
    simp only [Option.elim_some]
    split_ifs with h₁ h₂ h₂
    · rw [h₁, h₂]
      exact congrArg (fun t => { disk with table := t }) (Table.delete_nil disk.table).symm
    · rw [h₁]
      rfl
    · rw [h₂, Table.delete_nil]
      rfl
    · rfl

/-- What a report that was handled leaves on the disk. -/
theorem disk_commits (cfg : MasterConfig) (s : MasterDesk) (deals : List ReportDeal) :
    ∃ ds, (s.commits cfg deals).foldl Commit.apply s.disk =
      ⟨ds, max s.disk.watermark (top (s.fresh deals)),
        (s.diff cfg deals).1.elim s.disk.table fun l => (l.persist s.disk.table).2,
        s.disk.log ++ s.acts cfg deals⟩ := by
  obtain ⟨ds, w, hmarks, -, hw⟩ := take_marks s deals ((s.marks deals).length + 2)
  rw [take_of_length_le (by omega), hw (.inr (by omega))] at hmarks
  rw [commits, foldl_append, foldl_append, foldl_acts, hmarks, foldl_ledgerCommits]
  exact ⟨ds, rfl⟩

theorem length_ledgerCommits {l : NetLedger} (h : l.deleted = []) : (ledgerCommits (some l)).length ≤ 1 := by
  have hdel : l.dirtyRows.2.2 = [] := h
  simp only [ledgerCommits, hdel]
  split_ifs <;> simp

end Commits

/-! ### Reported deals -/

section Reported

variable {cfg : MasterConfig} {s s' : MasterDesk} {deals : List ReportDeal}

/-- The deals come with growing tickets and times. -/
def Ordered (s : MasterDesk) : Prop := s.history.Pairwise fun x y => x.ticket < y.ticket ∧ x.key ≤ y.key

/-- The deals behind the watermark. -/
def reported (s : MasterDesk) : List ReportDeal := s.history.filter fun d => d.ticket ≤ s.disk.watermark

theorem fresh_eq (ho : s.Ordered) (hp : (deals.filter fun d => s.disk.watermark < d.ticket) <+: s.unseen) :
    s.fresh deals = deals.filter fun d => s.disk.watermark < d.ticket := by
  have hsub : (deals.filter fun d => s.disk.watermark < d.ticket).Sublist s.history :=
    hp.sublist.trans filter_sublist
  exact Pairwise.insertionSort_eq ((ho.sublist hsub).imp And.right)

theorem fresh_reported (ho : s.Ordered)
    (hp : (deals.filter fun d => s.disk.watermark < d.ticket) <+: s.unseen) : s.fresh deals <+: s.unseen := by
  rw [fresh_eq ho hp]
  exact hp

theorem lt_of_mem_unseen {d : ReportDeal} (h : d ∈ s.unseen) : s.disk.watermark < d.ticket := by
  simpa using (mem_filter.1 h).2

theorem reported_append_unseen (ho : s.Ordered) : s.reported ++ s.unseen = s.history := by
  unfold reported unseen
  unfold Ordered at ho
  generalize s.history = history at ho ⊢
  induction history with
  | nil => rfl
  | cons d ds ih =>
    obtain ⟨hd, ho⟩ := pairwise_cons.1 ho
    by_cases hle : d.ticket ≤ s.disk.watermark
    · rw [filter_cons_of_pos (by simpa using hle), filter_cons_of_neg (by simpa using hle),
        cons_append, ih ho]
    · -- everything after a deal past the watermark is past it
      have hnil : ds.filter (fun d => d.ticket ≤ s.disk.watermark) = [] := by
        refine filter_eq_nil_iff.2 fun x hx => ?_
        have := (hd x hx).1
        simp only [decide_eq_true_eq]
        omega
      rw [hnil, nil_append] at ih
      rw [filter_cons_of_neg (by simpa using hle), filter_cons_of_pos (by simpa using hle), hnil,
        nil_append, ih ho]

/-- Reporting the first of the unseen deals moves the watermark behind them and no further. -/
theorem reported_advance (ho : s.Ordered) {ds : List ReportDeal} (hp : ds <+: s.unseen) {disk : Disk}
    (hw : disk.watermark = max s.disk.watermark (top ds)) (hs : s'.history = s.history)
    (hd : s'.disk = disk) : s'.reported = s.reported ++ ds := by
  obtain ⟨rest, hrest⟩ := hp
  have hall := reported_append_unseen ho
  rw [← hrest, ← append_assoc] at hall
  have ho' : (s.reported ++ ds ++ rest).Pairwise fun x y => x.ticket < y.ticket ∧ x.key ≤ y.key := hall ▸ ho
  have hlater := (pairwise_append.1 ho').2.2
  have hle : ∀ d ∈ s.reported ++ ds, d.ticket ≤ disk.watermark := by
    intro d hm
    rw [hw]
    rcases mem_append.1 hm with hm | hm
    · have : d.ticket ≤ s.disk.watermark := by simpa using (mem_filter.1 hm).2
      omega
    · have := top_le.1 le_rfl d hm
      omega
  have hgt : ∀ d ∈ rest, disk.watermark < d.ticket := by
    intro d hm
    have hu : s.disk.watermark < d.ticket :=
      lt_of_mem_unseen (hrest ▸ mem_append_right ds hm)
    have htop : top ds < d.ticket :=
      top_lt (by omega) fun x hx => (hlater x (mem_append_right _ hx) d hm).1
    omega
  have hreported : s'.reported = s.history.filter fun d => d.ticket ≤ disk.watermark := by
    rw [reported, hs, hd]
  rw [hreported, ← hall, filter_append, filter_eq_self.2 fun d hm => by simpa using hle d hm,
    filter_eq_nil_iff.2 fun d hm => by simpa using hgt d hm, append_nil]

/-- Deals come in order, and the watermark is not past the last. -/
structure Timely (s : MasterDesk) : Prop where
  ordered : s.Ordered
  known : ∀ n, 0 < n → (∀ d ∈ s.history, d.ticket < n) → s.disk.watermark < n

theorem timely_init : init.Timely := ⟨Pairwise.nil, fun _ h _ => h⟩

theorem Timely.of_watermark (h : s.Timely) (hp : s.fresh deals <+: s.unseen) (hh : s'.history = s.history)
    (hw : s'.disk.watermark = s.disk.watermark ∨
      s'.disk.watermark = max s.disk.watermark (top (s.fresh deals))) : s'.Timely := by
  constructor
  · rw [Ordered, hh]
    exact h.ordered
  · intro n h0 hn
    rw [hh] at hn
    have htop : top (s.fresh deals) < n :=
      top_lt h0 fun d hd => hn d (mem_of_mem_filter (hp.subset hd))
    have hold := h.known n h0 hn
    rcases hw with hw | hw <;> omega

theorem Timely.step {a : MasterAction} (h : s.Timely) (hf : fire cfg a s = some s') : s'.Timely := by
  cases a with
  | trade d positions orders =>
    simp only [fire] at hf
    split_ifs at hf with hc
    cases hf
    obtain ⟨⟨⟨h0, hd⟩, -⟩, -⟩ := hc
    constructor
    · exact pairwise_append.2 ⟨h.ordered, pairwise_singleton _ _, by simpa using hd⟩
    · exact fun n h0 hn => h.known n h0 fun x hx => hn x (mem_append_left _ hx)
  | book positions orders =>
    simp only [fire] at hf
    split_ifs at hf
    cases hf
    exact ⟨h.ordered, h.known⟩
  | sync deals cut =>
    simp only [fire] at hf
    split_ifs at hf with hp
    have hp := fresh_reported h.ordered hp
    cases cut with
    | none =>
      cases hf
      obtain ⟨ds, hdisk⟩ := disk_commits cfg s deals
      exact h.of_watermark hp rfl (.inr (congrArg Disk.watermark hdisk))
    | some k =>
      cases hf
      obtain ⟨ds, w, t, hdisk, hw, hw'⟩ := disk_take cfg s deals k
      have hwatermark := congrArg Disk.watermark hdisk
      refine h.of_watermark hp rfl ?_
      rcases Nat.lt_or_ge 1 k with hk | hk
      · exact .inr (hwatermark.trans (hw' (.inr hk)))
      · exact .inl (hwatermark.trans (hw hk))
  | restart =>
    cases hf
    exact ⟨h.ordered, h.known⟩

end Reported

end MasterDesk

end Copier.Mt5
