import Mathlib

/-!
# Copier.Models — the copier's data (`domain/models.py`)

Master events, slave intents and the records the decision core reads.  Prices are rationals (the
copier only compares them and passes them on); a volume is a number of protocol units.
-/

namespace Copier

/-- `Side`. -/
inductive Side where
  | buy | sell
  deriving DecidableEq, Repr

/-- Buying counts up, selling down. -/
def signed : Side → ℕ → ℤ
  | .buy, v => v
  | .sell, v => -v

/-- `PendingType`. -/
inductive PendingType where
  | limit | stop
  deriving DecidableEq, Repr

/-- `(stop_loss, take_profit)`. -/
structure Levels where
  stopLoss : Option ℚ
  takeProfit : Option ℚ
  deriving DecidableEq, Repr

/-- `(None, None)`. -/
def Levels.unset : Levels := ⟨none, none⟩

/-- Python's `round` to a whole number: a half goes to the even neighbour. -/
def roundEven (x : ℚ) : ℤ :=
  if x - ⌊x⌋ < 1 / 2 then ⌊x⌋
  else if 1 / 2 < x - ⌊x⌋ then ⌊x⌋ + 1
  else if ⌊x⌋ % 2 = 0 then ⌊x⌋ else ⌊x⌋ + 1

/-- What sizing reads of a broker's symbol record. -/
structure SymbolInfo where
  symbolId : ℕ
  /-- Protocol units per 1.00 lot. -/
  lotSize : ℕ+
  stepVolume : ℕ
  deriving DecidableEq

/-- Lots of 100 units, as in the samples. -/
instance lotSize_neZero : NeZero (100 : ℕ) := ⟨by decide⟩

/-- `SlaveConfig`. -/
structure SlaveConfig where
  accountId : ℕ
  enabled : Bool
  /-- The api stores only multipliers above 0. -/
  multiplier : { q : ℚ // 0 < q }
  symbols : String → Option SymbolInfo

/-- Volumes are copied one to one. -/
def unitMultiplier : { q : ℚ // 0 < q } := ⟨1, one_pos⟩

/-- A slave of the samples: it copies one to one, in steps of 1. -/
def sampleSlave (account symbol : ℕ) : SlaveConfig :=
  ⟨account, true, unitMultiplier, fun _ => some ⟨symbol, 100, 1⟩⟩

/-! ### Master events -/

structure MasterPositionOpened where
  positionId : ℕ
  symbolName : String
  side : Side
  volume : ℕ
  lotSize : ℕ+
  levels : Levels
  entryPrice : Option ℚ
  deriving DecidableEq

structure MasterPositionClosed where
  positionId : ℕ
  symbolName : String
  closedVolume : ℕ
  /-- 0 is a full close. -/
  remainingVolume : ℕ
  deriving DecidableEq

structure MasterPositionSLTPAmended where
  positionId : ℕ
  levels : Levels
  deriving DecidableEq

structure MasterPendingPlaced where
  orderId : ℕ
  symbolName : String
  side : Side
  orderType : PendingType
  volume : ℕ
  lotSize : ℕ+
  price : ℚ
  levels : Levels
  expiryTsMs : Option ℕ
  deriving DecidableEq

structure MasterPendingReplaced where
  orderId : ℕ
  symbolName : String
  lotSize : ℕ+
  orderType : PendingType
  volume : ℕ
  price : ℚ
  levels : Levels
  deriving DecidableEq

/-- `MasterEvent`. -/
inductive MasterEvent where
  | positionOpened (e : MasterPositionOpened)
  | positionClosed (e : MasterPositionClosed)
  | positionSLTPAmended (e : MasterPositionSLTPAmended)
  | pendingPlaced (e : MasterPendingPlaced)
  | pendingReplaced (e : MasterPendingReplaced)
  | pendingCancelled (orderId : ℕ)
  | pendingFilled (orderId positionId : ℕ)
  | rejected (reason : String)
  deriving DecidableEq

/-! ### Mapping state -/

/-- `PositionMappingEntry`. -/
structure PositionMappingEntry where
  slaveAccountId : ℕ
  slavePositionId : ℕ
  slaveVolume : ℕ
  deriving DecidableEq

/-- `OrderMappingEntry`. -/
structure OrderMappingEntry where
  slaveAccountId : ℕ
  slaveOrderId : ℕ
  deriving DecidableEq

/-! ### Slave intents -/

structure OpenMarket where
  slaveAccountId : ℕ
  masterPositionId : ℕ
  symbolId : ℕ
  side : Side
  volume : ℕ
  levels : Levels
  label : String
  symbolName : String
  entryPrice : Option ℚ
  deriving DecidableEq

structure ClosePosition where
  slaveAccountId : ℕ
  positionId : ℕ
  volume : ℕ
  masterPositionId : Option ℕ
  deriving DecidableEq

structure AmendPositionSLTP where
  slaveAccountId : ℕ
  positionId : ℕ
  levels : Levels
  deriving DecidableEq

structure PlacePending where
  slaveAccountId : ℕ
  masterOrderId : ℕ
  symbolId : ℕ
  side : Side
  orderType : PendingType
  volume : ℕ
  price : ℚ
  levels : Levels
  expiryTsMs : Option ℕ
  label : String
  symbolName : String
  deriving DecidableEq

structure AmendPending where
  slaveAccountId : ℕ
  orderId : ℕ
  orderType : PendingType
  volume : ℕ
  price : ℚ
  levels : Levels
  deriving DecidableEq

structure CancelPending where
  slaveAccountId : ℕ
  orderId : ℕ
  deriving DecidableEq

structure LinkPendingFill where
  slaveAccountId : ℕ
  masterOrderId : ℕ
  masterPositionId : ℕ
  deriving DecidableEq

/-- An alert: nothing is sent. -/
structure Alert where
  slaveAccountId : ℕ
  message : String
  deriving DecidableEq

/-- `SlaveIntent`: what the decision core asks the slaves for. -/
inductive SlaveIntent where
  | openMarket (i : OpenMarket)
  | closePosition (i : ClosePosition)
  | amendPositionSLTP (i : AmendPositionSLTP)
  | placePending (i : PlacePending)
  | amendPending (i : AmendPending)
  | cancelPending (i : CancelPending)
  | linkPendingFill (i : LinkPendingFill)
  | alert (i : Alert)
  deriving DecidableEq

/-- `slave_account_id`, a field of every intent. -/
def SlaveIntent.slaveAccountId : SlaveIntent → ℕ
  | .openMarket i => i.slaveAccountId
  | .closePosition i => i.slaveAccountId
  | .amendPositionSLTP i => i.slaveAccountId
  | .placePending i => i.slaveAccountId
  | .amendPending i => i.slaveAccountId
  | .cancelPending i => i.slaveAccountId
  | .linkPendingFill i => i.slaveAccountId
  | .alert i => i.slaveAccountId

/-- A client order id: `cm<position>.<account>` of a market copy, `co<order>.<account>` of a pending
copy, or the text of somebody else's order. -/
inductive ClientOrderId where
  | cm (masterPositionId slaveAccountId : ℕ)
  | co (masterOrderId slaveAccountId : ℕ)
  | other (text : String)
  deriving DecidableEq

/-- `client_order_id_for`. -/
def clientOrderIdFor : SlaveIntent → Option ClientOrderId
  | .openMarket i => some (.cm i.masterPositionId i.slaveAccountId)
  | .placePending i => some (.co i.masterOrderId i.slaveAccountId)
  | _ => none

/-- `master_position_of`: the position of a market copy. -/
def masterPositionOf : ClientOrderId → Option ℕ
  | .cm p _ => some p
  | _ => none

end Copier
