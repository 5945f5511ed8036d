import CopyTrading.Copier.Models

/-!
# Copier.Normalize — cTrader execution events (`engine/normalize.py`)

`normalize` turns an execution event of the master's broker into a master event, or drops it.  The
branches are tested in the source's order: rejections, unknown symbols, protection orders, fills, and
then the other changes of pending orders.
-/

namespace Copier

/-- `ProtoOAExecutionType`. -/
inductive ExecutionType where
  | orderAccepted | orderFilled | orderReplaced | orderCancelled | orderExpired | orderRejected
  | orderCancelRejected | swap | depositWithdraw | orderPartialFill | bonusDepositWithdraw
  deriving DecidableEq, Repr

/-- `ProtoOAOrderType`. -/
inductive OrderType where
  | market | limit | stop | stopLossTakeProfit | marketRange | stopLimit
  deriving DecidableEq, Repr

/-- The fields of `ProtoOAOrder` that are read; a float the broker left out reads 0. -/
structure ExecutionOrder where
  orderId : ℕ
  orderType : OrderType
  symbolId : ℕ
  tradeSide : Side
  volume : ℕ
  limitPrice : ℚ
  stopPrice : ℚ
  stopLoss : ℚ
  takeProfit : ℚ
  expirationTimestamp : Option ℕ
  deriving DecidableEq

/-- The fields of `ProtoOAPosition` that are read. -/
structure ExecutionPosition where
  positionId : ℕ
  volume : ℕ
  stopLoss : Option ℚ
  takeProfit : Option ℚ
  price : Option ℚ
  deriving DecidableEq

/-- The fields of `ProtoOADeal` that are read. -/
structure ExecutionDeal where
  positionId : ℕ
  filledVolume : ℕ
  /-- `closePositionDetail.closedVolume`, if the deal closes. -/
  closePositionDetail : Option ℕ
  executionPrice : Option ℚ
  deriving DecidableEq

/-- `ProtoOAExecutionEvent`. -/
structure ExecutionEvent where
  executionType : ExecutionType
  errorCode : String
  order : ExecutionOrder
  position : ExecutionPosition
  deal : ExecutionDeal
  deriving DecidableEq

/-- What is read of a symbol of the master. -/
structure MasterSymbol where
  name : String
  lotSize : ℕ+
  deriving DecidableEq

/-- `_extract_float_if_nonzero`. -/
def extractFloatIfNonzero (value : ℚ) : Option ℚ := if value = 0 then none else some value

/-- The type of a pending order; other orders are not pending. -/
def OrderType.pending : OrderType → Option PendingType
  | .limit => some .limit
  | .stop => some .stop
  | _ => none

/-- `limitPrice` of a limit order, `stopPrice` of a stop order. -/
def ExecutionOrder.pendingPrice (o : ExecutionOrder) : PendingType → ℚ
  | .limit => o.limitPrice
  | .stop => o.stopPrice

/-- `ORDER_FILLED` or `ORDER_PARTIAL_FILL`. -/
def ExecutionEvent.isFill (evt : ExecutionEvent) : Bool :=
  evt.executionType = .orderFilled || evt.executionType = .orderPartialFill

/-- The branch for fills. -/
def normalizeFill (evt : ExecutionEvent) (sym : MasterSymbol) : Option MasterEvent :=
  match evt.deal.closePositionDetail with
  | some k => some (.positionClosed ⟨evt.deal.positionId, sym.name, k, evt.position.volume⟩)
  | none =>
    match evt.order.orderType with
    | .limit => some (.pendingFilled evt.order.orderId evt.deal.positionId)
    | .stop => some (.pendingFilled evt.order.orderId evt.deal.positionId)
    | .market => some (opened evt sym)
    | .marketRange => some (opened evt sym)
    -- unknown order type with fill
    | _ => none
where
  /-- The position's price is the entry; the deal's where it is absent. -/
  opened (evt : ExecutionEvent) (sym : MasterSymbol) : MasterEvent :=
    .positionOpened ⟨evt.deal.positionId, sym.name, evt.order.tradeSide, evt.deal.filledVolume,
      sym.lotSize, ⟨evt.position.stopLoss, evt.position.takeProfit⟩,
      evt.position.price.or evt.deal.executionPrice⟩

/-- The branches for pending orders that do not fill. -/
def normalizePending (evt : ExecutionEvent) (sym : MasterSymbol) (t : PendingType) : Option MasterEvent :=
  let levels : Levels := ⟨extractFloatIfNonzero evt.order.stopLoss,
    extractFloatIfNonzero evt.order.takeProfit⟩
  match evt.executionType with
  | .orderAccepted =>
    some (.pendingPlaced ⟨evt.order.orderId, sym.name, evt.order.tradeSide, t, evt.order.volume,
      sym.lotSize, evt.order.pendingPrice t, levels, evt.order.expirationTimestamp⟩)
  | .orderReplaced =>
    some (.pendingReplaced ⟨evt.order.orderId, sym.name, sym.lotSize, t, evt.order.volume,
      evt.order.pendingPrice t, levels⟩)
  | .orderCancelled => some (.pendingCancelled evt.order.orderId)
  | .orderExpired => some (.pendingCancelled evt.order.orderId)
  | _ => none

/-- `normalize`. -/
def normalize (evt : ExecutionEvent) (symbolsById : ℕ → Option MasterSymbol) : Option MasterEvent :=
  if evt.executionType = .orderRejected then
    some (.rejected (if evt.errorCode = "" then "ORDER_REJECTED" else evt.errorCode))
  else
    match symbolsById evt.order.symbolId with
    | none => none
    | some sym =>
      if evt.order.orderType = .stopLossTakeProfit then
        if evt.executionType ∈ [.orderAccepted, .orderReplaced, .orderCancelled] then
          some (.positionSLTPAmended
            ⟨evt.position.positionId, ⟨evt.position.stopLoss, evt.position.takeProfit⟩⟩)
        -- its fills are dropped
        else none
      else if evt.isFill then normalizeFill evt sym
      else evt.order.orderType.pending.bind (normalizePending evt sym)

/-! ### What each kind of event becomes -/

section Cases

variable {evt : ExecutionEvent} {symbolsById : ℕ → Option MasterSymbol} {sym : MasterSymbol}
  {t : PendingType} {e : MasterEvent}

theorem normalize_fill (hs : symbolsById evt.order.symbolId = some sym) (hf : evt.isFill)
    (ht : evt.order.orderType ≠ .stopLossTakeProfit) :
    normalize evt symbolsById = normalizeFill evt sym := by
  have hne : evt.executionType ≠ .orderRejected := by
    intro h
    simp [ExecutionEvent.isFill, h] at hf
  unfold normalize
  rw [if_neg hne, hs]
  simp only
  rw [if_neg ht, if_pos hf]

/-- A pending order that does not fill. -/
theorem normalize_pending (hs : symbolsById evt.order.symbolId = some sym) (hf : evt.isFill = false)
    (hr : evt.executionType ≠ .orderRejected) (ht : evt.order.orderType.pending = some t) :
    normalize evt symbolsById = normalizePending evt sym t := by
  have hne : evt.order.orderType ≠ .stopLossTakeProfit := by
    intro h
    simp [h, OrderType.pending] at ht
  unfold normalize
  rw [if_neg hr, hs]
  simp only
  rw [if_neg hne, if_neg (by simp [hf]), ht]
  rfl

/-- A master event that changes a position. -/
def MasterEvent.isTrade : MasterEvent → Bool
  | .positionOpened _ => true
  | .positionClosed _ => true
  | .pendingFilled _ _ => true
  | _ => false

/-- The volume an event states for a pending order. -/
def MasterEvent.orderVolume : MasterEvent → Option (ℕ × ℕ)
  | .pendingPlaced e => some (e.orderId, e.volume)
  | .pendingReplaced e => some (e.orderId, e.volume)
  | _ => none

/-- The event trades nothing, and a volume it states is the order's. -/
def ExecutionEvent.Untraded (evt : ExecutionEvent) (e : MasterEvent) : Prop :=
  e.isTrade = false ∧ (e.orderVolume = none ∨
    e.orderVolume = some (evt.order.orderId, evt.order.volume) ∧
      (evt.executionType = .orderAccepted ∨ evt.executionType = .orderReplaced))

theorem normalizePending_untraded (h : normalizePending evt sym t = some e) : evt.Untraded e := by
  unfold normalizePending at h
  cases ht : evt.executionType with
  | orderAccepted =>
    simp only [ht] at h
    cases h
    exact ⟨rfl, .inr ⟨rfl, .inl ht⟩⟩
  | orderReplaced =>
    simp only [ht] at h
    cases h
    exact ⟨rfl, .inr ⟨rfl, .inr ht⟩⟩
  | orderCancelled | orderExpired =>
    simp only [ht] at h
    cases h
    exact ⟨rfl, .inl rfl⟩
  | _ => simp [ht] at h

/-- Events that fill nothing become events that trade nothing. -/
theorem normalize_untraded (hf : evt.isFill = false)
    (h : normalize evt symbolsById = some e) : evt.Untraded e := by
  unfold normalize at h
  by_cases hr : evt.executionType = .orderRejected
  · rw [if_pos hr] at h
    cases h
    exact ⟨rfl, .inl rfl⟩
  rw [if_neg hr] at h
  cases hs : symbolsById evt.order.symbolId with
  | none => simp [hs] at h
  | some sym =>
    simp only [hs, hf, Bool.false_eq_true, if_false] at h
    split_ifs at h with ht ha
    · cases h
      exact ⟨rfl, .inl rfl⟩
    · obtain ⟨t, -, h⟩ := Option.bind_eq_some_iff.1 h
      exact normalizePending_untraded h

end Cases

end Copier
