import CopyTrading.Lib.Calls
import CopyTrading.Webhook.Alerts

/-!
# Webhook.Act — acting on an alert (`_handle` from step 9, `_close`, `_cancel`, `_copier` of `routes/webhooks.py`)

An admitted alert becomes calls to the copier: a read of the book, then one order, or one request for each
position or resting order.  A call that fails is classified: nothing was sent, it was refused, or the outcome is
not known.  The class of the call that failed decides how the alert is answered and whether its fingerprint is
freed for a resend.
-/

namespace Webhook

/-! ### The copier's answers -/

inductive BookSide where
  | buy | sell
  deriving DecidableEq, Repr

/-- A position of the master's book. -/
structure BookPosition where
  positionId : ℕ
  symbol : Option String
  side : BookSide
  deriving DecidableEq

/-- A resting order of the master's book. -/
structure BookOrder where
  orderId : ℕ
  symbol : Option String
  side : Option BookSide
  deriving DecidableEq

/-- `/state`, as far as it is read. -/
structure Book where
  masterPositions : List BookPosition
  pendingOrders : List BookOrder
  positionIds : (masterPositions.map BookPosition.positionId).Nodup
  orderIds : (pendingOrders.map BookOrder.orderId).Nodup
  deriving DecidableEq

/-- What a body that is no book is read as. -/
def Book.empty : Book := ⟨[], [], List.nodup_nil, List.nodup_nil⟩

/-- The body of an answer: a book if it is one, and the text of its error. -/
structure Reply where
  book : Book
  detail : String
  deriving DecidableEq

/-- What becomes of one call.  `took`: the copier acted on the request. -/
inductive Outcome where
  /-- The deadline has passed: the call is not made. -/
  | late
  /-- `ConnectError`, `ConnectTimeout`, `PoolTimeout`. -/
  | unreachable (text : String)
  /-- Any other `HTTPError`: the request was written. -/
  | broken (text : String) (took : Bool)
  | answered (status : ℕ) (reply : Reply) (took : Bool)
  deriving DecidableEq

namespace Outcome

/-- The request was written to the copier. -/
def written : Outcome → Bool
  | .late => false
  | .unreachable _ => false
  | _ => true

/-- The copier accepted the request: every success, no refusal, and what it may be if no answer tells. -/
def accepted : Outcome → Bool
  | .late => false
  | .unreachable _ => false
  | .broken _ took => took
  | .answered status _ took => status < 400 || (500 ≤ status && took)

end Outcome

/-- How a call failed: `WebhookRejected`, `CopierDown`, `CopierUnknown`. -/
inductive Failure where
  | rejected (status : ℕ) (reason : String)
  | down (text : String)
  | unknown (text : String)
  deriving DecidableEq

/-- `_TRANSIENT_400`. -/
def transient400 : List String :=
  ["no client for account", "not found", "not authorized", "no live price", "is starting", "not connected"]

/-- `any(phrase in detail.lower() …)`. -/
def transient (detail : String) : Bool := transient400.any fun phrase => phrase.toList <:+: lower detail.toList

/-- `_copier`, with the check of the deadline before it. -/
def copier : Outcome → Except Failure Reply
  | .late => .error (.down "too slow, nothing sent")
  | .unreachable text => .error (.down text)
  | .broken text _ => .error (.unknown text)
  | .answered status reply _ =>
    if 500 ≤ status then .error (.unknown ("copier answered " ++ toString status))
    else if 400 ≤ status then
      if transient reply.detail then .error (.down reply.detail) else .error (.rejected 422 reply.detail)
    else .ok reply

/-! ### Requests -/

/-- The body of `POST /order`. -/
structure Order where
  accountId : ℕ
  symbol : String
  side : BookSide
  orderType : OrderType
  lots : ℚ
  limitPrice : Option ℚ
  stopPrice : Option ℚ
  stopLoss : Option ℚ
  takeProfit : Option ℚ
  deriving DecidableEq

/-- A call to the copier. -/
inductive Request where
  | state
  | resync
  | order (o : Order)
  | close (accountId positionId : ℕ)
  | cancel (accountId orderId : ℕ)
  deriving DecidableEq

/-- An order, close or cancel. -/
def Request.isTrade : Request → Bool
  | .state => false
  | .resync => false
  | _ => true

/-! ### The alert's calls -/

/-- `name.upper() in wanted`. -/
def named (symbol : String) (brokerName : Option String) (name : String) : Bool :=
  upper name.toList = upper symbol.toList ||
    brokerName.any fun b => b ≠ "" && upper name.toList = upper b.toList

/-- `find_master_positions`. -/
def findMasterPositions (book : Book) (symbol : String) (brokerName : Option String) : List BookPosition :=
  book.masterPositions.filter fun p => p.symbol.any (named symbol brokerName)

/-- The orders that `_cancel` finds. -/
def findResting (book : Book) (symbol : String) : List BookOrder :=
  book.pendingOrders.filter fun o => upper (o.symbol.getD "").toList = upper symbol.toList

/-- One call. -/
def request (q : Request) : Calls Request Outcome (Except Failure Reply) := Calls.ask q copier

/-- A resync that does not answer in time is no order that may be live. -/
def resynced (o : Outcome) : Except Failure Unit :=
  match copier o with
  | .error (.unknown _) => .ok ()
  | .error f => .error f
  | .ok _ => .ok ()

/-- The positions that a close alert finds; an empty book is read again after a resync. -/
def held (symbol : String) : Calls Request Outcome (Except Failure (List BookPosition)) :=
  (request .state).attempt fun reply =>
    match findMasterPositions reply.book symbol none with
    | [] => (Calls.ask .resync resynced).attempt fun _ =>
      (request .state).attempt fun reply => .done (.ok (findMasterPositions reply.book symbol none))
    | positions => .done (.ok positions)

/-- `_close`: the positions that were closed. -/
def close (master : ℕ) (symbol : String) : Calls Request Outcome (Except Failure (List BookPosition)) :=
  (held symbol).attempt fun positions => Calls.each (fun p => .close master p.positionId) copier positions

/-- The resting orders on a symbol. -/
def resting (symbol : String) : Calls Request Outcome (Except Failure (List BookOrder)) :=
  (request .state).attempt fun reply => .done (.ok (findResting reply.book symbol))

/-- `_cancel`: the orders that were cancelled. -/
def cancel (master : ℕ) (symbol : String) : Calls Request Outcome (Except Failure (List BookOrder)) :=
  (resting symbol).attempt fun orders => Calls.each (fun o => .cancel master o.orderId) copier orders

/-- `outcome` of a receipt. -/
inductive ReceiptOutcome where
  | accepted | duplicate | unknown | rejected | failed | nothingToClose | nothingToCancel
  deriving DecidableEq, Repr

/-- How an alert ends: the HTTP status, what `_finish` writes, and whether the fingerprint is freed. -/
structure Verdict where
  status : ℕ
  outcome : ReceiptOutcome
  reason : Option String
  clearFp : Bool
  deriving DecidableEq

/-- The `except` branches. -/
def Failure.verdict : Failure → Verdict
  | .rejected status reason => ⟨status, .rejected, some reason, true⟩
  | .down text => ⟨503, .failed, some ("copier unreachable: " ++ text), true⟩
  | .unknown text => ⟨200, .unknown, some ("copier did not confirm: " ++ text), false⟩

/-- An order that a signal places, as far as it is known before the book is read. -/
structure Signal where
  order : Order
  /-- The opposite positions of the book. -/
  opposes : Book → Bool

def BookSide.opposite : BookSide → BookSide
  | .buy => .sell
  | .sell => .buy

/-- The checks of the book and the order: `_handle` and `_handle_vt_ltf` from the read of `/state`. -/
def place (maxOpen : ℕ) (signal : Signal) : Calls Request Outcome (Except Failure Unit) :=
  (request .state).attempt fun reply =>
    if signal.opposes reply.book then
      .done (.error (.rejected 422 ("master holds an opposite position on " ++ signal.order.symbol ++
        "; reverse-on-signal is not supported -- send close first")))
    else if maxOpen ≤ reply.book.masterPositions.length + reply.book.pendingOrders.length then
      .done (.error (.rejected 422 ("master already holds " ++ toString maxOpen ++
        " open positions or pending orders; raise the limit in Automation if this is intended")))
    else (request (.order signal.order)).attempt fun _ => .done (.ok ())

/-- The order of a buy or sell alert. -/
def Alert.signal (alert : Alert) (master : ℕ) (side : BookSide) (lots : ℚ) : Signal where
  order :=
    { accountId := master, symbol := alert.symbol, side := side, orderType := alert.orderType, lots := lots
      limitPrice := if alert.orderType = .limit then alert.price else none
      stopPrice := if alert.orderType = .stop then alert.price else none
      stopLoss := alert.stopLoss, takeProfit := alert.takeProfit }
  opposes book := (findMasterPositions book alert.symbol none).any fun p => p.side = side.opposite

/-- The order of a triggered bridge alert; resting orders oppose it too. -/
def VTAlert.signal (vt : VTAlert) (master : ℕ) (lots : ℚ) : Signal where
  order :=
    { accountId := master, symbol := vt.symbol, side := if vt.bias = .long then .buy else .sell
      orderType := .market, lots := lots, limitPrice := none, stopPrice := none
      stopLoss := some vt.stop, takeProfit := some vt.target }
  opposes book :=
    let opposite : BookSide := if vt.bias = .long then .sell else .buy
    ((findMasterPositions book vt.symbol none).any fun p => p.side = opposite) ||
      (book.pendingOrders.filter fun o => upper (o.symbol.getD "None").toList = vt.symbol.toList).any
        fun o => o.side = some opposite

/-- The verdict on a list of things done. -/
def doneVerdict {α : Type} (nothing : ReceiptOutcome) (reason : String) : Except Failure (List α) → Verdict
  | .error f => f.verdict
  | .ok [] => ⟨200, nothing, some reason, false⟩
  | .ok _ => ⟨200, .accepted, none, false⟩

/-- The verdict on an order. -/
def placedVerdict : Except Failure Unit → Verdict
  | .error f => f.verdict
  | .ok () => ⟨200, .accepted, none, false⟩

/-- `_handle`, from step 9. -/
def act (master maxOpen : ℕ) (alert : Alert) : Calls Request Outcome Verdict :=
  match alert.action with
  | .close => (close master alert.symbol).bind fun r =>
      .done (doneVerdict .nothingToClose "nothing open on that symbol" r)
  | .cancel => (cancel master alert.symbol).bind fun r =>
      .done (doneVerdict .nothingToCancel "no order resting on that symbol" r)
  | .buy => (place maxOpen (alert.signal master .buy (alert.lots.getD 0))).bind fun r => .done (placedVerdict r)
  | .sell => (place maxOpen (alert.signal master .sell (alert.lots.getD 0))).bind fun r => .done (placedVerdict r)

end Webhook
