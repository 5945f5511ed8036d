import CopyTrading.Copier.Models
import CopyTrading.Lib.Fifo

/-!
# Mt5.Ingress — an MT5 master's report becomes master events (`mt5/ingress.py`)

A terminal reports its book and the deals since the last report.  Deals say what was traded; the
difference to the previous book says what was amended, placed, replaced or cancelled.  A netting
account has one position per symbol: the `NetLedger` expands it into virtual positions, which an
outgoing deal consumes oldest first.
-/

namespace Copier.Mt5

open List

/-! ### Reports (`mt5/protocol.py`) -/

/-- `CENTILOTS`: protocol units per 1.00 lot. -/
def centilots : ℕ+ := 100

/-- `DEAL_TYPES`. -/
inductive DealType where
  | buy | sell | balance | credit | other
  deriving DecidableEq, Repr

/-- The side of a deal of `TRADE_TYPES`. -/
def DealType.side : DealType → Option Side
  | .buy => some .buy
  | .sell => some .sell
  | _ => none

/-- `DEAL_ENTRIES`: `IN`, `OUT`, `INOUT`, `OUT_BY` and the empty one of balance operations. -/
inductive DealEntry where
  | entryIn | entryOut | entryInOut | entryOutBy | entryNone
  deriving DecidableEq, Repr

/-- `CLOSE_ENTRIES`. -/
def DealEntry.isClose : DealEntry → Bool
  | .entryOut => true
  | .entryOutBy => true
  | .entryInOut => true
  | _ => false

/-- `PENDING_TYPES`. -/
inductive PendingOrderType where
  | buyLimit | sellLimit | buyStop | sellStop
  deriving DecidableEq, Repr

/-- `_side_of`. -/
def sideOf : PendingOrderType → Side
  | .buyLimit => .buy
  | .buyStop => .buy
  | .sellLimit => .sell
  | .sellStop => .sell

/-- `_pending_type_of`. -/
def pendingTypeOf : PendingOrderType → PendingType
  | .buyLimit => .limit
  | .sellLimit => .limit
  | .buyStop => .stop
  | .sellStop => .stop

/-- The fields of a reported position that are read; volumes are centilots. -/
structure ReportPosition where
  ticket : ℕ
  symbol : String
  volume : ℕ
  levels : Levels
  deriving DecidableEq

/-- A pending order of a report. -/
structure ReportOrder where
  ticket : ℕ
  symbol : String
  orderType : PendingOrderType
  volume : ℕ
  price : ℚ
  levels : Levels
  deriving DecidableEq

/-- A deal of a report. -/
structure ReportDeal where
  ticket : ℕ
  position : ℕ
  /-- 0 for none. -/
  order : ℕ
  /-- The broker's name. -/
  symbol : String
  dealType : DealType
  entry : DealEntry
  volume : ℕ
  price : ℚ
  timeMs : ℕ
  deriving DecidableEq

/-- The report of a master. -/
structure SyncReport where
  positions : List ReportPosition
  orders : List ReportOrder
  deals : List ReportDeal
  deriving DecidableEq

/-- What is read of the previous book (`PositionSnapshot`, `OrderSnapshot`). -/
structure PositionSnapshot where
  positionId : ℕ
  levels : Levels
  deriving DecidableEq

/-- A pending order of the previous book. -/
structure OrderSnapshot where
  orderId : ℕ
  volume : ℕ
  price : ℚ
  levels : Levels
  deriving DecidableEq

/-- `(time_ms, ticket)`. -/
def ReportDeal.key (d : ReportDeal) : ℕ ×ₗ ℕ := toLex (d.timeMs, d.ticket)

/-- The deals in time order. -/
def sortedDeals (deals : List ReportDeal) : List ReportDeal :=
  deals.insertionSort fun d d' => d.key ≤ d'.key

/-! ### The net ledger -/

/-- One row of `mt5_net_ledger`. -/
structure VirtualPosition where
  virtualId : ℕ
  symbol : String
  side : Side
  volumeOpen : ℕ
  volumeLeft : ℕ
  levels : Levels
  openedAtMs : ℕ
  deriving DecidableEq

namespace VirtualPosition

/-- `_order_key`. -/
def key (v : VirtualPosition) : ℕ ×ₗ ℕ := toLex (v.openedAtMs, v.virtualId)

/-- What a close on `symbol` can take from it. -/
def amount (symbol : String) (v : VirtualPosition) : ℕ := if v.symbol = symbol then v.volumeLeft else 0

/-- `volume_left -= take`; an emptied position leaves the ledger. -/
def drain (v : VirtualPosition) (take : ℕ) : Option VirtualPosition :=
  if v.volumeLeft - take = 0 then none else some { v with volumeLeft := v.volumeLeft - take }

end VirtualPosition

/-- `NetLedger`: the virtual positions oldest first, the ids to upsert and to delete.  An entry of
`_dirty` is the position itself, so the ids alone are kept. -/
structure NetLedger where
  positions : List VirtualPosition
  dirty : List ℕ
  deleted : List ℕ
  deriving DecidableEq

namespace NetLedger

/-- `self._positions.sort(key=_order_key)`. -/
def sorted (positions : List VirtualPosition) : List VirtualPosition :=
  positions.insertionSort fun v w => v.key ≤ w.key

/-- `NetLedger(rows)`. -/
def ofRows (rows : List VirtualPosition) : NetLedger := ⟨sorted rows, [], []⟩

/-- `_of_symbol`. -/
def ofSymbol (l : NetLedger) (symbol : String) : List VirtualPosition :=
  l.positions.filter fun v => v.symbol = symbol

/-- `self._dirty[id] = vp`: a key in use keeps its place. -/
def markDirty (l : NetLedger) (virtualId : ℕ) : NetLedger :=
  { l with dirty := if virtualId ∈ l.dirty then l.dirty else l.dirty ++ [virtualId] }

/-- `_open`. -/
def openVirtual (l : NetLedger) (deal : ReportDeal) (side : Side) (volume : ℕ) (levels : Levels) :
    NetLedger :=
  let vp : VirtualPosition :=
    ⟨deal.ticket, deal.symbol, side, volume, volume, levels, deal.timeMs⟩
  let l' := { l with positions := sorted (l.positions ++ [vp]) }.markDirty vp.virtualId
  { l' with deleted := l'.deleted.filter (· ≠ vp.virtualId) }

/-- The event of one virtual position's close. -/
def closedEvent (canonical : String) (x : VirtualPosition × ℕ) : MasterPositionClosed :=
  ⟨x.1.virtualId, canonical, x.2, x.1.volumeLeft - x.2⟩

/-- An emptied position is to be deleted, another one to be upserted. -/
def noteClosed (l : NetLedger) (e : MasterPositionClosed) : NetLedger :=
  if e.remainingVolume = 0 then
    { l with dirty := l.dirty.filter (· ≠ e.positionId), deleted := l.deleted ++ [e.positionId] }
  else l.markDirty e.positionId

/-- `_consume`. -/
def consume (l : NetLedger) (symbol canonical : String) (volume : ℕ) :
    NetLedger × List MasterPositionClosed :=
  let r := Fifo.consume (VirtualPosition.amount symbol) VirtualPosition.drain l.positions volume
  let events := r.2.map (closedEvent canonical)
  (events.foldl noteClosed { l with positions := r.1 }, events)

/-- The event of a virtual position opened by a deal. -/
def openedEvent (deal : ReportDeal) (canonical : String) (side : Side) (volume : ℕ) (levels : Levels) :
    MasterEvent :=
  .positionOpened ⟨deal.ticket, canonical, side, volume, centilots, levels, some deal.price⟩

/-- `apply_deal`. -/
def applyDeal (l : NetLedger) (deal : ReportDeal) (canonical : String) (levels : Levels) :
    NetLedger × List MasterEvent :=
  match deal.dealType.side with
  | none => (l, [])
  | some side =>
    if deal.volume = 0 then (l, [])
    else
      match deal.entry with
      | .entryIn =>
        (l.openVirtual deal side deal.volume levels,
          [openedEvent deal canonical side deal.volume levels])
      | .entryOut => closing (l.consume deal.symbol canonical deal.volume)
      | .entryOutBy => closing (l.consume deal.symbol canonical deal.volume)
      | .entryInOut =>
        let held := ((l.ofSymbol deal.symbol).map VirtualPosition.volumeLeft).sum
        let r := closing (l.consume deal.symbol canonical held)
        if held < deal.volume then
          (r.1.openVirtual deal side (deal.volume - held) levels,
            r.2 ++ [openedEvent deal canonical side (deal.volume - held) levels])
        else r
      | .entryNone => (l, [])
where
  closing (r : NetLedger × List MasterPositionClosed) : NetLedger × List MasterEvent :=
    (r.1, r.2.map .positionClosed)

/-- `apply_protection`. -/
def applyProtection (l : NetLedger) (symbol : String) (levels : Levels) :
    NetLedger × List MasterEvent :=
  let changed := (l.ofSymbol symbol).filter fun v => v.levels ≠ levels
  let positions := l.positions.map fun v => if v.symbol = symbol then { v with levels := levels } else v
  ((changed.map VirtualPosition.virtualId).foldl markDirty { l with positions := positions },
    changed.map fun v => .positionSLTPAmended ⟨v.virtualId, levels⟩)

/-- `dirty_rows`: the upserts and the deleted ids since the last call. -/
def dirtyRows (l : NetLedger) : NetLedger × List VirtualPosition × List ℕ :=
  ({ l with dirty := [], deleted := [] },
    l.dirty.filterMap (fun i => l.positions.find? (·.virtualId = i)), l.deleted)

end NetLedger

/-! ### The report -/

/-- `{key(x): x for x in xs}`: the last record of a key, in the order of its first. -/
def lookup {α : Type} (key : α → ℕ) (xs : List α) (k : ℕ) : Option α :=
  xs.reverse.find? fun x => key x = k

/-- The keys of the same dictionary. -/
def keys {α : Type} (key : α → ℕ) (xs : List α) : List ℕ := (xs.map key).eraseDups

section Dictionary

variable {α : Type} {key : α → ℕ} {xs : List α} {k : ℕ}

theorem key_of_lookup {x : α} (h : lookup key xs k = some x) : x ∈ xs ∧ key x = k :=
  ⟨mem_reverse.1 (mem_of_find?_eq_some h), by simpa using find?_some h⟩

theorem isSome_lookup : (lookup key xs k).isSome ↔ k ∈ xs.map key := by
  simp [lookup, find?_isSome]

theorem nodup_eraseDups (ks : List ℕ) : ks.eraseDups.Nodup := by
  match ks with
  | [] => exact nodup_nil
  | k :: ks =>
    rw [eraseDups_cons, nodup_cons]
    exact ⟨by simp [mem_eraseDups], nodup_eraseDups _⟩
  termination_by ks.length
  decreasing_by exact Nat.lt_succ_of_le (length_filter_le _ _)

/-- Each key once. -/
theorem keys_nodup : (keys key xs).Nodup := nodup_eraseDups _

theorem mem_keys : k ∈ keys key xs ↔ k ∈ xs.map key := mem_eraseDups

theorem eraseDups_of_nodup {ks : List ℕ} (h : ks.Nodup) : ks.eraseDups = ks := by
  induction ks with
  | nil => rfl
  | cons k ks ih =>
    obtain ⟨hk, h⟩ := nodup_cons.1 h
    have hself : ks.filter (fun j => !j == k) = ks :=
      filter_eq_self.2 fun j hj => by simpa using ne_of_mem_of_not_mem hj hk
    rw [eraseDups_cons, hself, ih h]

theorem lookup_of_nodup {x : α} (h : (xs.map key).Nodup) (hx : x ∈ xs) : lookup key xs (key x) = some x := by
  obtain ⟨y, hy⟩ := Option.isSome_iff_exists.1 (isSome_lookup.2 (mem_map_of_mem hx))
  obtain ⟨hm, hk⟩ := key_of_lookup hy
  rw [hy, inj_on_of_nodup_map h hm hx hk]

/-- A dictionary of records with different keys is the list of them. -/
theorem filterMap_lookup_of_nodup (h : (xs.map key).Nodup) : (keys key xs).filterMap (lookup key xs) = xs := by
  rw [keys, eraseDups_of_nodup h, filterMap_map]
  exact (filterMap_congr (g := some) fun x hx => lookup_of_nodup h hx).trans filterMap_some

/-- The records of a dictionary have their keys, each once. -/
theorem map_lookup_sublist (ks : List ℕ) : ((ks.filterMap (lookup key xs)).map key).Sublist ks := by
  induction ks with
  | nil => exact Sublist.slnil
  | cons k ks ih =>
    rw [filterMap_cons]
    cases h : lookup key xs k with
    | none => exact ih.cons k
    | some x =>
      rw [map_cons, (key_of_lookup h).2]
      exact ih.cons_cons k

end Dictionary

/-- The arguments `aliases_reverse` and `symbols`. -/
structure Names where
  aliasesReverse : String → Option String
  symbols : String → Option SymbolInfo

/-- The canonical name of a broker's symbol. -/
def Names.canonical (names : Names) (brokerName : String) : String :=
  (names.aliasesReverse brokerName).getD brokerName

def Names.lotSize (names : Names) (brokerName : String) : ℕ+ :=
  ((names.symbols brokerName).map SymbolInfo.lotSize).getD centilots

/-- The levels of the position a deal belongs to, as the report shows it. -/
def shownLevels (pos : Option ReportPosition) : Levels := (pos.map ReportPosition.levels).getD .unset

/-- A trade deal of a hedging master. -/
def hedgingDeal (names : Names) (report : SyncReport) (prevOrders : List OrderSnapshot)
    (d : ReportDeal) (side : Side) : List MasterEvent :=
  let pos := lookup ReportPosition.ticket report.positions d.position
  if d.entry = .entryIn then
    if (lookup OrderSnapshot.orderId prevOrders d.order).isSome then [.pendingFilled d.order d.position]
    else [.positionOpened ⟨d.position, names.canonical d.symbol, side, d.volume, names.lotSize d.symbol,
      shownLevels pos, some d.price⟩]
  else if d.entry.isClose then
    [.positionClosed ⟨d.position, names.canonical d.symbol, d.volume,
      (pos.map ReportPosition.volume).getD 0⟩]
  else []

/-- A trade deal of a netting master: a pending order's fill is reported in place of the open. -/
def nettingDeal (names : Names) (report : SyncReport) (prevOrders : List OrderSnapshot)
    (d : ReportDeal) (l : NetLedger) : NetLedger × List MasterEvent :=
  let pos := lookup ReportPosition.ticket report.positions d.position
  let r := l.applyDeal d (names.canonical d.symbol) (shownLevels pos)
  if d.entry = .entryIn ∧ (lookup OrderSnapshot.orderId prevOrders d.order).isSome then
    (r.1, [.pendingFilled d.order d.ticket])
  else r

/-- The loop over the deals. -/
def dealEvents (names : Names) (report : SyncReport) (prevOrders : List OrderSnapshot) :
    List ReportDeal → Option NetLedger → Option NetLedger × List MasterEvent
  | [], l => (l, [])
  | d :: ds, l =>
    match d.dealType.side with
    | none => dealEvents names report prevOrders ds l
    | some side =>
      match l with
      | none =>
        let r := dealEvents names report prevOrders ds none
        (r.1, hedgingDeal names report prevOrders d side ++ r.2)
      | some l =>
        let x := nettingDeal names report prevOrders d l
        let r := dealEvents names report prevOrders ds (some x.1)
        (r.1, x.2 ++ r.2)

/-- The loop over the positions: stops and targets that changed since the previous book. -/
def protectionEvents (prevPositions : List PositionSnapshot) :
    List ReportPosition → Option NetLedger → Option NetLedger × List MasterEvent
  | [], l => (l, [])
  | pos :: rest, l =>
    match lookup PositionSnapshot.positionId prevPositions pos.ticket with
    | none => protectionEvents prevPositions rest l
    | some prev =>
      if prev.levels = pos.levels then protectionEvents prevPositions rest l
      else
        match l with
        | none =>
          let r := protectionEvents prevPositions rest none
          (r.1, .positionSLTPAmended ⟨pos.ticket, pos.levels⟩ :: r.2)
        | some l =>
          let x := l.applyProtection pos.symbol pos.levels
          let r := protectionEvents prevPositions rest (some x.1)
          (r.1, x.2 ++ r.2)

/-- The event of an order of this report. -/
def orderEvent (names : Names) (prevOrders : List OrderSnapshot) (o : ReportOrder) : List MasterEvent :=
  match lookup OrderSnapshot.orderId prevOrders o.ticket with
  | none =>
    [.pendingPlaced ⟨o.ticket, names.canonical o.symbol, sideOf o.orderType, pendingTypeOf o.orderType,
      o.volume, names.lotSize o.symbol, o.price, o.levels, none⟩]
  | some prev =>
    if (prev.volume, prev.price, prev.levels) ≠ (o.volume, o.price, o.levels) then
      [.pendingReplaced ⟨o.ticket, names.canonical o.symbol, names.lotSize o.symbol,
        pendingTypeOf o.orderType, o.volume, o.price, o.levels⟩]
    else []

/-- The orders with an `IN` deal in the report. -/
def filledOrders (report : SyncReport) : List ℕ :=
  (report.deals.filter fun d => d.order ≠ 0 ∧ d.entry = .entryIn).map ReportDeal.order

/-- The orders that are gone without a deal. -/
def cancelEvents (report : SyncReport) (prevOrders : List OrderSnapshot) : List MasterEvent :=
  ((keys OrderSnapshot.orderId prevOrders).filter fun t =>
    (lookup ReportOrder.ticket report.orders t).isNone ∧ t ∉ filledOrders report).map .pendingCancelled

/-- `master_events_from_report`: the events, and the ledger of a netting master afterwards. -/
def masterEventsFromReport (report : SyncReport)
    (previous : Option (List PositionSnapshot × List OrderSnapshot)) (names : Names)
    (ledger : Option NetLedger) : Option NetLedger × List MasterEvent :=
  let prevOrders := (previous.map Prod.snd).getD []
  let r := dealEvents names report prevOrders (sortedDeals report.deals) ledger
  match previous with
  -- the first report after a restart: no diff
  | none => r
  | some (prevPositions, _) =>
    let shown := (keys ReportPosition.ticket report.positions).filterMap
      (lookup ReportPosition.ticket report.positions)
    let x := protectionEvents prevPositions shown r.1
    let orders := (keys ReportOrder.ticket report.orders).filterMap
      (lookup ReportOrder.ticket report.orders)
    (x.1, r.2 ++ x.2 ++ orders.flatMap (orderEvent names prevOrders) ++ cancelEvents report prevOrders)

end Copier.Mt5
