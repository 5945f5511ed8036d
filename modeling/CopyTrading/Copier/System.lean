import CopyTrading.Copier.Service
import CopyTrading.Lib.Machine

/-!
# Copier.System — one master, a fleet of cTrader slaves and the copier between them

Each slave's platform gets the copier's requests in the order they were sent, executes them, and
reports back in the order it did so; a resting order may fill at any time.  Master events, executions,
fills and deliveries interleave freely.  Nothing is rejected, and a request is filled in full.  Which
position a fill lands in is the broker's choice; the runs are those in which it lands with its copy.
-/

namespace Copier

/-! ### The master -/

/-- A position of the master. -/
structure MasterPosition where
  symbolName : String
  /-- 0 once the position is closed. -/
  volume : ℕ
  /-- The levels last stated. -/
  levels : Levels
  deriving DecidableEq

inductive MasterOrderStatus where
  | resting | cancelled | filled (positionId : ℕ)
  deriving DecidableEq

/-- A pending order of the master. -/
structure MasterOrder where
  symbolName : String
  volume : ℕ
  levels : Levels
  status : MasterOrderStatus
  deriving DecidableEq

/-- The master account's positions and orders, by their broker ids. -/
structure Master where
  positions : ℕ → Option MasterPosition
  orders : ℕ → Option MasterOrder

namespace Master

def empty : Master := ⟨fun _ => none, fun _ => none⟩

def setPosition (m : Master) (p : ℕ) (x : MasterPosition) : Master :=
  { m with positions := Function.update m.positions p (some x) }

def setOrder (m : Master) (o : ℕ) (x : MasterOrder) : Master :=
  { m with orders := Function.update m.orders o (some x) }

/-- The master after an event, `none` if the event cannot happen there.  A second open of a position
is an increase; a pending order fills in full, as a new position. -/
def next (m : Master) : MasterEvent → Option Master
  | .positionOpened e =>
    match m.positions e.positionId with
    | none =>
      if 0 < e.volume then some (m.setPosition e.positionId ⟨e.symbolName, e.volume, e.levels⟩)
      else none
    | some x =>
      if 0 < x.volume ∧ 0 < e.volume ∧ x.symbolName = e.symbolName then
        some (m.setPosition e.positionId { x with volume := x.volume + e.volume, levels := e.levels })
      else none
  | .positionClosed e =>
    match m.positions e.positionId with
    | none => none
    | some x =>
      if 0 < e.closedVolume ∧ x.volume = e.closedVolume + e.remainingVolume ∧
          x.symbolName = e.symbolName then
        some (m.setPosition e.positionId { x with volume := e.remainingVolume })
      else none
  | .positionSLTPAmended e =>
    match m.positions e.positionId with
    | none => none
    | some x =>
      if 0 < x.volume then some (m.setPosition e.positionId { x with levels := e.levels }) else none
  | .pendingPlaced e =>
    match m.orders e.orderId with
    | none =>
      if 0 < e.volume then
        some (m.setOrder e.orderId ⟨e.symbolName, e.volume, e.levels, .resting⟩)
      else none
    | some _ => none
  | .pendingReplaced e =>
    match m.orders e.orderId with
    | none => none
    | some x =>
      if x.status = .resting ∧ 0 < e.volume ∧ x.symbolName = e.symbolName then
        some (m.setOrder e.orderId { x with volume := e.volume, levels := e.levels })
      else none
  | .pendingCancelled o =>
    match m.orders o with
    | none => none
    | some x =>
      if x.status = .resting then some (m.setOrder o { x with status := .cancelled }) else none
  | .pendingFilled o p =>
    match m.orders o with
    | none => none
    | some x =>
      if x.status = .resting ∧ 0 < x.volume ∧ m.positions p = none then
        some ((m.setOrder o { x with status := .filled p }).setPosition p
          ⟨x.symbolName, x.volume, x.levels⟩)
      else none
  | .rejected _ => some m

end Master

/-! ### A slave account and its broker -/

/-- A position of the slave, with the client order id of the order that opened it. -/
structure BrokerPosition where
  id : ℕ
  clientOrderId : ClientOrderId
  volume : ℕ
  deriving DecidableEq

inductive BrokerOrderStatus where
  | resting | filled | cancelled
  deriving DecidableEq

/-- An order at the broker of a slave. -/
structure BrokerOrder where
  id : ℕ
  clientOrderId : ClientOrderId
  volume : ℕ
  status : BrokerOrderStatus
  deriving DecidableEq

instance : Keyed BrokerPosition ℕ := ⟨BrokerPosition.id⟩
instance : Keyed BrokerOrder ℕ := ⟨BrokerOrder.id⟩

@[simp] theorem key_position (q : BrokerPosition) : Keyed.key q = q.id := rfl
@[simp] theorem key_order (q : BrokerOrder) : Keyed.key q = q.id := rfl

/-- A request as it was sent, with the copy it was sent to. -/
structure Sent where
  copy : Option ClientOrderId
  intent : SlaveIntent

/-- A slave account: what it is sent, what it holds and what it reports. -/
structure Account where
  /-- Requests sent and not yet executed, oldest first. -/
  requests : List SlaveIntent
  /-- Reports not yet handled, oldest first. -/
  reports : List Report
  positions : Table BrokerPosition
  orders : Table BrokerOrder
  /-- Every request ever sent, newest first. -/
  log : List Sent

namespace Account

def empty : Account := ⟨[], [], .empty, .empty, []⟩

/-- Nothing is in flight. -/
def quiet (x : Account) : Prop := x.requests = [] ∧ x.reports = []

instance (x : Account) : Decidable x.quiet := inferInstanceAs (Decidable (_ ∧ _))

/-- A fill that opens; cTrader reports no levels with it. -/
def openFill (c : ClientOrderId) (π v : ℕ) (ω : Option ℕ) : Report :=
  .filled ⟨some c, π, v, none, ω, .unset⟩

/-- A fill that closes; its order carries no client order id. -/
def closeFill (π k : ℕ) : Report := .filled ⟨none, π, k, some k, none, .unset⟩

def addVolume (v : ℕ) (q : BrokerPosition) : BrokerPosition := { q with volume := q.volume + v }

def subVolume (k : ℕ) (q : BrokerPosition) : BrokerPosition := { q with volume := q.volume - k }

def resize (v : ℕ) (q : BrokerOrder) : BrokerOrder := { q with volume := v }

def mark (st : BrokerOrderStatus) (q : BrokerOrder) : BrokerOrder := { q with status := st }

/-- An opening fill of `v` for the copy `c` lands in the position `π`: in a new one, or in any that is open. -/
def land (x : Account) (c : ClientOrderId) (π v : ℕ) (ω : Option ℕ) : Option Account :=
  match x.positions.find π with
  | none =>
    some { x with
      positions := x.positions.insert ⟨π, c, v⟩
      reports := x.reports ++ [openFill c π v ω] }
  | some q =>
    if 0 < q.volume then
      some { x with
        positions := x.positions.modify π (addVolume v) fun _ => rfl
        reports := x.reports ++ [openFill c π v ω] }
    else none

/-- The broker executes one request; `fresh` is the position its fill lands in, or the id of the order
it creates. -/
def execute (fresh : ℕ) (x : Account) : SlaveIntent → Option Account
  | .openMarket i => x.land (.cm i.masterPositionId i.slaveAccountId) fresh i.volume none
  | .closePosition i =>
    match x.positions.find i.positionId with
    | none => some x
    | some q =>
      let k := min i.volume q.volume
      if k = 0 then some x
      else
        some { x with
          positions := x.positions.modify q.id (subVolume k) fun _ => rfl
          reports := x.reports ++ [closeFill q.id k] }
  | .placePending i =>
    let c := ClientOrderId.co i.masterOrderId i.slaveAccountId
    if x.orders.find fresh = none then
      some { x with
        orders := x.orders.insert ⟨fresh, c, i.volume, .resting⟩
        reports := x.reports ++ [.accepted (some c) fresh] }
    else none
  | .amendPending i =>
    some { x with
      orders := x.orders.modify i.orderId
        (fun q => if q.status = .resting then resize i.volume q else q)
        fun q => by dsimp; split_ifs <;> rfl }
  | .cancelPending i =>
    match x.orders.find i.orderId with
    | none => some x
    | some q =>
      if q.status = .resting then
        some { x with
          orders := x.orders.modify q.id (mark .cancelled) fun _ => rfl
          reports := x.reports ++ [.cancelled q.id] }
      -- an order that is gone cannot be cancelled
      else some x
  | .amendPositionSLTP _ => some x
  | .linkPendingFill _ => some x
  | .alert _ => some x

/-- A resting order fills; the fill lands in the position `π`. -/
def trigger (ω π : ℕ) (x : Account) : Option Account :=
  match x.orders.find ω with
  | none => none
  | some q =>
    if q.status = .resting then
      { x with orders := x.orders.modify ω (mark .filled) fun _ => rfl }.land q.clientOrderId π q.volume
        (some ω)
    else none

/-- `π` is the position that the copy holds, or a new one where it holds none. -/
def Lands (x : Account) (c : ClientOrderId) (π : ℕ) : Prop :=
  (∃ q ∈ x.positions.rows, q.id = π ∧ q.clientOrderId = c ∧ 0 < q.volume) ∨
    x.positions.find π = none ∧ ∀ q ∈ x.positions.rows, q.clientOrderId = c → q.volume = 0

instance (x : Account) (c : ClientOrderId) (π : ℕ) : Decidable (x.Lands c π) :=
  inferInstanceAs (Decidable (_ ∨ _))

end Account

/-- The copy a request is addressed to, by the mappings at the time it is sent.  An amend of a
pending order reaches no copy that already filled. -/
def addressee (s : Mappings) (i : SlaveIntent) : Option ClientOrderId :=
  match i with
  | .closePosition i => position i.slaveAccountId i.positionId
  | .amendPositionSLTP i => position i.slaveAccountId i.positionId
  | .amendPending i =>
    (s.rows.find? fun m => m.isOrder i.slaveAccountId (some i.orderId) && m.held.isNone).map
      (·.clientOrderId)
  | .cancelPending i =>
    (s.rows.find? fun m => m.isOrder i.slaveAccountId (some i.orderId)).map (·.clientOrderId)
  | i => clientOrderIdFor i
where
  /-- The active row of a slave position. -/
  position (a π : ℕ) : Option ClientOrderId :=
    (s.rows.find? fun m => m.slaveAccountId = a && m.status = .active &&
      m.slavePositionId = some π).map (·.clientOrderId)

/-- The account's share of what is sent. -/
def Account.receive (s : Mappings) (sent : List SlaveIntent) (x : Account) : Account :=
  { x with
    requests := x.requests ++ sent
    log := (sent.map fun i => ⟨addressee s i, i⟩).reverse ++ x.log }

/-! ### The system -/

/-- The enabled slaves of the org, one record an account. -/
structure Fleet where
  slaves : List SlaveConfig
  nodup : (slaves.map (·.accountId)).Nodup
  enabled : ∀ s ∈ slaves, s.enabled = true

/-- The master, the service and the slaves. -/
structure Sys where
  master : Master
  service : Service
  accounts : ℕ → Account

namespace Sys

/-- Before the first event. -/
def init : Sys := ⟨.empty, ⟨.empty, []⟩, fun _ => .empty⟩

/-- The service's answer reaches the accounts it names. -/
def answer (s : Sys) (r : Service × List SlaveIntent) : Sys :=
  { s with
    service := r.1
    accounts := fun a =>
      (s.accounts a).receive r.1.mappings (r.2.filter fun i => i.slaveAccountId = a) }

/-- No request and no report of a slave is in flight. -/
def Quiescent (fleet : Fleet) (s : Sys) : Prop :=
  ∀ sl ∈ fleet.slaves, (s.accounts sl.accountId).quiet

instance (fleet : Fleet) (s : Sys) : Decidable (s.Quiescent fleet) :=
  inferInstanceAs (Decidable (∀ sl ∈ fleet.slaves, _))

def setAccount (s : Sys) (a : ℕ) (x : Account) : Sys :=
  { s with accounts := Function.update s.accounts a x }

end Sys

/-- What happens next in the system. -/
inductive Action where
  | master (e : MasterEvent)
  | execute (a fresh : ℕ)
  | trigger (a ω π : ℕ)
  | deliver (a : ℕ)

/-- One action of the system. -/
def fire (fleet : Fleet) : Action → Sys → Option Sys
  | .master e, s =>
    (s.master.next e).map fun m =>
      { s with master := m }.answer (s.service.onMasterEvent .live fleet.slaves e)
  | .execute a fresh, s =>
    match (s.accounts a).requests with
    | [] => none
    | i :: rest =>
      ({ s.accounts a with requests := rest }.execute fresh i).map (s.setAccount a)
  | .trigger a ω π, s => ((s.accounts a).trigger ω π).map (s.setAccount a)
  | .deliver a, s =>
    match (s.accounts a).reports with
    | [] => none
    | r :: rest =>
      some ((s.setAccount a { s.accounts a with reports := rest }).answer
        (s.service.handleReport .live a r))

/-- The market order that a request is. -/
def SlaveIntent.market : SlaveIntent → Option OpenMarket
  | .openMarket i => some i
  | _ => none

/-- A fill of a market copy lands in the position the copy holds, or in a new one where it holds none, and
the fill of a resting order lands in a new position. -/
def Action.Lands (s : Sys) : Action → Prop
  | .execute a π => ∀ i ∈ (s.accounts a).requests.head?.bind SlaveIntent.market,
    (s.accounts a).Lands (.cm i.masterPositionId i.slaveAccountId) π
  | .trigger a _ π => (s.accounts a).positions.find π = none
  | .master _ | .deliver _ => True

instance (s : Sys) : DecidablePred (Action.Lands s)
  | .execute a _ => inferInstanceAs (Decidable (∀ i ∈ (s.accounts a).requests.head?.bind SlaveIntent.market, _))
  | .trigger _ _ _ => inferInstanceAs (Decidable (_ = _))
  | .master _ | .deliver _ => isTrue trivial

/-- Runs of the system whose fills all land with their copies and whose actions all meet `ok`. -/
abbrev Runs (fleet : Fleet) (ok : Action → Sys → Prop) : Sys → Sys → Prop :=
  Machine.Run (fire fleet) fun act s => act.Lands s ∧ ok act s

/-! ### A sample fleet -/

/-- One slave that copies one to one. -/
def sampleFleet : Fleet where
  slaves := [sampleSlave 1 7]
  nodup := List.nodup_singleton _
  enabled := by simp [sampleSlave]

def sampleOpen (p v : ℕ) (levels : Levels) : Action :=
  .master (.positionOpened ⟨p, "EURUSD", .buy, v, 100, levels, none⟩)

def sampleClose (p closed remaining : ℕ) : Action :=
  .master (.positionClosed ⟨p, "EURUSD", closed, remaining⟩)

def samplePlace (o v : ℕ) (levels : Levels) : Action :=
  .master (.pendingPlaced ⟨o, "EURUSD", .buy, .limit, v, 100, 1, levels, none⟩)

end Copier
