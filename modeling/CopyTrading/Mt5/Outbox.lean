import CopyTrading.Copier.Service
import CopyTrading.Mt5.Ingress

/-!
# Mt5.Outbox — the commands for a terminal (`mt5/outbox.py`, `mt5_commands` of `db/repo.py`)

Nothing can push to a terminal: what the copier decides for it is a row that a poll collects (queued,
then sent) and an acknowledgement settles (done or failed).  A netting account has one position per
symbol, so the close of one copy is queued as an open on the other side.
-/

namespace Copier.Mt5

/-- `OPEN_COMMAND_TTL_S`. -/
def openCommandTtl : ℚ := 30

/-- `REDELIVER_AFTER_S`. -/
def redeliverAfter : ℚ := 10

/-- `MAX_ATTEMPTS`. -/
def maxAttempts : ℕ := 3

/-- A command's kind with its payload; volumes are centilots, a level of 0 is none. -/
inductive Payload where
  | openMarket (symbol : String) (side : Side) (volume : ℕ) (levels : Levels) (comment : String)
  | closePosition (position volume : ℕ)
  | amend (position : ℕ) (levels : Levels)
  | placePending (symbol : String) (orderType : PendingOrderType) (volume : ℕ) (price : ℚ)
      (levels : Levels) (expiryMs : ℕ) (comment : String)
  | amendPending (order volume : ℕ) (price : ℚ) (levels : Levels)
  | cancelPending (order : ℕ)
  deriving DecidableEq

/-- `status` of a row of `mt5_commands`. -/
inductive CommandStatus where
  | queued | sent | done | failed
  deriving DecidableEq, Repr

/-- A row of `mt5_commands`. -/
structure CommandRow where
  id : ℕ
  accountId : ℕ
  orgId : ℕ
  payload : Payload
  clientOrderId : Option ClientOrderId
  /-- The client order id is followed by `CLOSE_SUFFIX`. -/
  closing : Bool
  /-- Queued by `dispatch`, not by an operator. -/
  copy : Bool
  status : CommandStatus
  attempts : ℕ
  createdAt : ℚ
  sentAt : Option ℚ
  deriving DecidableEq

/-! ### Queueing -/

/-- `f"{side}_{kind}"`. -/
def pendingOrderType : Side → PendingType → PendingOrderType
  | .buy, .limit => .buyLimit
  | .buy, .stop => .buyStop
  | .sell, .limit => .sellLimit
  | .sell, .stop => .sellStop

/-- `command_for_intent`; `none` where it raises. -/
def commandForIntent (brokerSymbol : String) : SlaveIntent → Option Payload
  | .openMarket i => some (.openMarket brokerSymbol i.side i.volume i.levels i.label)
  | .closePosition i => some (.closePosition i.positionId i.volume)
  | .amendPositionSLTP i => some (.amend i.positionId i.levels)
  | .placePending i =>
    some (.placePending brokerSymbol (pendingOrderType i.side i.orderType) i.volume i.price i.levels
      (i.expiryTsMs.getD 0) i.label)
  | .amendPending i => some (.amendPending i.orderId i.volume i.price i.levels)
  | .cancelPending i => some (.cancelPending i.orderId)
  | .linkPendingFill _ => none
  | .alert _ => none

/-- `mt5_open_payload` and `mapping_side`: symbol and side of the first open queued for the copy. -/
def openPayload (rows : List CommandRow) (coid : ClientOrderId) : Option (String × Side) :=
  rows.findSome? fun r =>
    match r.payload with
    | .openMarket symbol side _ _ _ =>
      if r.clientOrderId = some coid ∧ r.closing = false then some (symbol, side) else none
    | _ => none

def Side.opposite : Side → Side
  | .buy => .sell
  | .sell => .buy

/-- A new row. -/
def queuedRow (id account org : ℕ) (now : ℚ) (payload : Payload) (coid : Option ClientOrderId)
    (closing copy : Bool) : CommandRow :=
  ⟨id, account, org, payload, coid, closing, copy, .queued, 0, now, none⟩

/-- `_enqueue_netting_close`: the open on the other side; `none` when no open command tells the side. -/
def nettingClose (rows : List CommandRow) (id org : ℕ) (now : ℚ) (i : ClosePosition) :
    Option CommandRow := do
  let p ← i.masterPositionId
  let coid : ClientOrderId := .cm p i.slaveAccountId
  let (symbol, side) ← openPayload rows coid
  some (queuedRow id i.slaveAccountId org now
    (.openMarket symbol (Side.opposite side) i.volume .unset s!"close:m{p}") (some coid) true true)

/-- `enqueue_intent`: the row that is queued. -/
def enqueueIntent (netting : Bool) (rows : List CommandRow) (id org : ℕ) (now : ℚ)
    (brokerSymbol : String) (intent : SlaveIntent) : Option CommandRow :=
  let plain := (commandForIntent brokerSymbol intent).map fun payload =>
    queuedRow id intent.slaveAccountId org now payload (clientOrderIdFor intent) false true
  match intent with
  | .closePosition i => if netting then (nettingClose rows id org now i).or plain else plain
  | _ => plain

/-- The row is the intent's command, or the open on the other side of the copy it closes. -/
inductive Enqueued (rows : List CommandRow) (id org : ℕ) (now : ℚ) (symbol : String) :
    SlaveIntent → CommandRow → Prop where
  | plain (i : SlaveIntent) (payload : Payload) : commandForIntent symbol i = some payload →
    Enqueued rows id org now symbol i
      (queuedRow id i.slaveAccountId org now payload (clientOrderIdFor i) false true)
  | close (i : ClosePosition) (p : ℕ) (x : String × Side) :
    openPayload rows (.cm p i.slaveAccountId) = some x →
    Enqueued rows id org now symbol (.closePosition i) (queuedRow id i.slaveAccountId org now
      (.openMarket x.1 (Side.opposite x.2) i.volume .unset s!"close:m{p}")
        (some (.cm p i.slaveAccountId)) true true)

theorem enqueueIntent_cases {netting : Bool} {rows : List CommandRow} {id org : ℕ} {now : ℚ} {symbol : String}
    {i : SlaveIntent} {r : CommandRow} (h : enqueueIntent netting rows id org now symbol i = some r) :
    Enqueued rows id org now symbol i r := by
  have hplain : (commandForIntent symbol i).map (fun payload =>
      queuedRow id i.slaveAccountId org now payload (clientOrderIdFor i) false true) = some r →
      Enqueued rows id org now symbol i r := by
    intro hr
    obtain ⟨p, hp, rfl⟩ := Option.map_eq_some_iff.1 hr
    exact .plain i p hp
  cases i with
  | closePosition i =>
    simp only [enqueueIntent] at h
    split_ifs at h
    · rcases Option.or_eq_some_iff.1 h with h | ⟨-, h⟩
      · simp only [nettingClose, Option.bind_eq_bind, Option.bind_eq_some_iff] at h
        obtain ⟨p, -, x, hopen, h⟩ := h
        cases h
        exact .close i p x hopen
      · exact hplain h
    · exact hplain h
  | _ => exact hplain h

/-! ### Delivery -/

namespace CommandRow

variable (r : CommandRow)

/-- `status IN ('queued', 'sent')`. -/
def isOpen : Bool := r.status = .queued || r.status = .sent

/-- An `open` or `place_pending` that is not a netting close. -/
def expires : Bool :=
  match r.payload with
  | .openMarket .. => !r.closing
  | .placePending .. => !r.closing
  | _ => false

/-- The rows of `fail_stale_mt5_opens`. -/
def stale (account : ℕ) (now : ℚ) : Bool :=
  r.accountId = account && r.expires && r.isOpen && r.createdAt < now - openCommandTtl

/-- `fail_stale_mt5_opens`, row by row. -/
def failStale (account : ℕ) (now : ℚ) : CommandRow :=
  if r.stale account now then { r with status := .failed } else r

/-- `sent` less than `REDELIVER_AFTER_S` ago. -/
def recent (now : ℚ) : Bool := r.status = .sent && now - r.sentAt.getD now < redeliverAfter

/-- A row of the loop of `deliverable` that is neither recent nor out of attempts. -/
def due (account : ℕ) (now : ℚ) : Bool :=
  r.accountId = account && r.isOpen && !r.recent now && !(r.status = .sent && maxAttempts ≤ r.attempts)

/-- `_give_up`. -/
def exhausted (account : ℕ) (now : ℚ) : Bool :=
  r.accountId = account && !r.recent now && (r.status = .sent && maxAttempts ≤ r.attempts)

/-- `mark_mt5_commands_sent` and `_give_up`. -/
def deliver (account : ℕ) (now : ℚ) : CommandRow :=
  if r.due account now then
    { r with status := .sent, sentAt := some now, attempts := r.attempts + 1 }
  else if r.exhausted account now then { r with status := .failed } else r

end CommandRow

/-- The rows once a poll has expired the stale ones. -/
def unexpired (account : ℕ) (now : ℚ) (rows : List CommandRow) : List CommandRow :=
  rows.map fun r => r.failStale account now

/-- `deliverable`: the rows afterwards, and the commands of the reply in id order. -/
def deliverable (account : ℕ) (now : ℚ) (rows : List CommandRow) :
    List CommandRow × List CommandRow :=
  ((unexpired account now rows).map fun r => r.deliver account now,
    (unexpired account now rows).filter fun r => r.due account now)

/-- `complete_mt5_command`: the row an acknowledgement settles. -/
def CommandRow.complete (account id : ℕ) (ok : Bool) (r : CommandRow) : CommandRow :=
  if r.id = id ∧ r.isOpen ∧ r.accountId = account then
    { r with status := if ok then .done else .failed }
  else r

/-! ### What is handed over -/

section Delivery

variable {account : ℕ} {now : ℚ} {rows : List CommandRow} {r : CommandRow}

/-- What a delivery leaves as it is. -/
structure SameCommand (r r' : CommandRow) : Prop where
  id : r'.id = r.id
  accountId : r'.accountId = r.accountId
  orgId : r'.orgId = r.orgId
  payload : r'.payload = r.payload
  closing : r'.closing = r.closing
  copy : r'.copy = r.copy
  isOpen : r'.isOpen = true → r.isOpen = true

theorem failStale_same (r : CommandRow) : SameCommand r (r.failStale account now) := by
  unfold CommandRow.failStale
  split_ifs
  · exact ⟨rfl, rfl, rfl, rfl, rfl, rfl, nofun⟩
  · exact ⟨rfl, rfl, rfl, rfl, rfl, rfl, id⟩

theorem deliver_same (r : CommandRow) : SameCommand r (r.deliver account now) := by
  unfold CommandRow.deliver
  split_ifs with hd
  · refine ⟨rfl, rfl, rfl, rfl, rfl, rfl, fun _ => ?_⟩
    simp only [CommandRow.due, Bool.and_eq_true] at hd
    exact hd.1.1.2
  · exact ⟨rfl, rfl, rfl, rfl, rfl, rfl, nofun⟩
  · exact ⟨rfl, rfl, rfl, rfl, rfl, rfl, id⟩

theorem complete_same (id : ℕ) (ok : Bool) (r : CommandRow) :
    SameCommand r (r.complete account id ok) := by
  unfold CommandRow.complete
  by_cases h : r.id = id ∧ r.isOpen ∧ r.accountId = account
  · rw [if_pos h]
    exact ⟨rfl, rfl, rfl, rfl, rfl, rfl, fun _ => h.2.1⟩
  · rw [if_neg h]
    exact ⟨rfl, rfl, rfl, rfl, rfl, rfl, fun ho => ho⟩

theorem SameCommand.trans {r₁ r₂ r₃ : CommandRow} (h : SameCommand r₁ r₂) (h' : SameCommand r₂ r₃) :
    SameCommand r₁ r₃ :=
  ⟨h'.id.trans h.id, h'.accountId.trans h.accountId, h'.orgId.trans h.orgId,
    h'.payload.trans h.payload, h'.closing.trans h.closing, h'.copy.trans h.copy,
    fun ho => h.isOpen (h'.isOpen ho)⟩

/-- The rows after a poll are the rows before it. -/
theorem mem_deliverable_rows (h : r ∈ (deliverable account now rows).1) :
    ∃ r₀ ∈ rows, SameCommand r₀ r := by
  simp only [deliverable, unexpired, List.map_map, List.mem_map] at h
  obtain ⟨r₀, hr₀, rfl⟩ := h
  exact ⟨r₀, hr₀, (failStale_same r₀).trans (deliver_same _)⟩

/-- A command that is handed over was open, and is the polling account's. -/
theorem mem_deliverable_commands (h : r ∈ (deliverable account now rows).2) :
    r.accountId = account ∧ r.isOpen = true ∧ ∃ r₀ ∈ rows, SameCommand r₀ r := by
  simp only [deliverable, unexpired, List.mem_filter, List.mem_map] at h
  obtain ⟨⟨r₀, hr₀, rfl⟩, hd⟩ := h
  simp only [CommandRow.due, Bool.and_eq_true, decide_eq_true_eq] at hd
  exact ⟨hd.1.1.1, hd.1.1.2, r₀, hr₀, failStale_same r₀⟩

end Delivery

end Copier.Mt5
