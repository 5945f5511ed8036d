import CopyTrading.Dispatch.Desk

/-!
# Mt5.Sync — a follower terminal's poll (`mt5_sync`, `apply_acks`, `_apply_mt5_outcome`, `_mt5_slave_deals`)

A poll brings the acknowledgements of executed commands and the terminal's deals, and takes the commands that
are due.  An acknowledged copy is booked by its client order id; a deal that no acknowledgement has settled is
the terminal's own doing and is booked by the position it names.
-/

namespace Copier.Mt5

/-! ### Acknowledgements -/

/-- What the terminal says of a command it ran; a ticket or volume of 0 is left out. -/
structure Result where
  ok : Bool
  position : Option ℕ
  deal : Option ℕ
  order : Option ℕ
  volume : Option ℕ
  deriving DecidableEq

/-- The answer to one command. -/
structure Ack where
  commandId : ℕ
  result : Result
  deriving DecidableEq

inductive CommandKind where
  | openMarket | closePosition | amend | placePending | amendPending | cancelPending
  deriving DecidableEq, Repr

namespace Payload

def kind : Payload → CommandKind
  | .openMarket .. => .openMarket
  | .closePosition .. => .closePosition
  | .amend .. => .amend
  | .placePending .. => .placePending
  | .amendPending .. => .amendPending
  | .cancelPending .. => .cancelPending

/-- `payload.get("position")`. -/
def position : Payload → Option ℕ
  | .closePosition position _ => some position
  | .amend position _ => some position
  | _ => none

/-- `payload.get("order")`. -/
def order : Payload → Option ℕ
  | .amendPending order _ _ _ => some order
  | .cancelPending order => some order
  | _ => none

/-- `payload.get("lots")`, unless it is 0. -/
def volume (p : Payload) : Option ℕ :=
  (match p with
    | .openMarket _ _ volume _ _ => some volume
    | .closePosition _ volume => some volume
    | .placePending _ _ volume _ _ _ _ => some volume
    | .amendPending _ volume _ _ => some volume
    | _ => none).filter (· ≠ 0)

end Payload

/-- `AckOutcome`. -/
structure AckOutcome where
  commandId : ℕ
  kind : CommandKind
  clientOrderId : Option ClientOrderId
  ok : Bool
  position : Option ℕ
  order : Option ℕ
  volume : Option ℕ
  deal : Option ℕ
  deriving DecidableEq

/-- The outcome of a settled row; a netting follower's `:close` open is reported as a close. -/
def CommandRow.outcome (r : CommandRow) (k : Ack) : AckOutcome where
  commandId := r.id
  kind := if r.payload.kind = .openMarket ∧ r.clientOrderId.isSome ∧ r.closing then .closePosition
    else r.payload.kind
  clientOrderId := r.clientOrderId
  ok := k.result.ok
  position := k.result.position.or r.payload.position
  order := k.result.order.or r.payload.order
  volume := k.result.volume.or r.payload.volume
  deal := k.result.deal

/-- The row that an acknowledgement of the account settles. -/
def CommandRow.awaits (account id : ℕ) (r : CommandRow) : Bool :=
  r.id = id && r.isOpen && r.accountId = account

/-- `apply_acks`. -/
def applyAcks (account : ℕ) : List CommandRow → List Ack → List CommandRow × List AckOutcome
  | rows, [] => (rows, [])
  | rows, k :: ks =>
    match rows.find? (CommandRow.awaits account k.commandId) with
    | none => applyAcks account rows ks
    | some r =>
      let x := applyAcks account (rows.map (CommandRow.complete account k.commandId k.result.ok)) ks
      (x.1, r.outcome k :: x.2)

/-! ### The server -/

/-- The orgs' accounts as the server knows them. -/
structure ServerConfig where
  org : ℕ
  netting : ℕ → Bool
  /-- `mt5_targets`. -/
  targets : ℕ → Option (ℕ → Option String)

/-- The outbox, the service and what is known of the deals. -/
structure Server where
  rows : List CommandRow
  service : Service
  /-- By account: the last deal ingested, and `_mt5_settled_deals`. -/
  watermark : ℕ → ℕ
  settled : ℕ → List ℕ

/-- What a terminal sends. -/
structure FollowerReport where
  positions : List ReportPosition
  acks : List Ack
  deals : List ReportDeal

/-- `_enqueue_for_mt5`. -/
def enqueueOne (cfg : ServerConfig) (now : ℚ) (rows : List CommandRow) (i : SlaveIntent) : List CommandRow :=
  match (cfg.targets i.slaveAccountId).bind fun symbols => Dispatch.Desk.brokerSymbol symbols i with
  | none => rows
  | some symbol =>
    rows ++ (enqueueIntent (cfg.netting i.slaveAccountId) rows rows.length cfg.org now symbol i).toList

/-- `_enqueue_for_mt5` finds no symbol of the broker, and returns before the mapping is made. -/
def ServerConfig.unmatched (cfg : ServerConfig) (i : SlaveIntent) : Bool :=
  (cfg.targets i.slaveAccountId).any fun symbols => (Dispatch.Desk.brokerSymbol symbols i).isNone

namespace Server

variable (cfg : ServerConfig) (gates : Org) (now : ℚ) (account : ℕ) (s : Server)

/-- The requests that a handler of the service made. -/
def send (x : Service × List SlaveIntent) : Server :=
  { s with service := x.1, rows := x.2.foldl (enqueueOne cfg now) s.rows }

/-- `dispatch`. -/
def dispatch (intents : List SlaveIntent) : Server :=
  let r := Copier.dispatch gates (intents.filter fun i => !(gates.copies && cfg.unmatched i)) s.service.mappings
  s.send cfg now ({ s.service with mappings := r.1 }, r.2)

def setMappings (m : Mappings) : Server := { s with service := { s.service with mappings := m } }

/-! ### Outcomes -/

/-- The levels that the report shows for a position. -/
def shown (report : FollowerReport) (position : ℕ) : Levels :=
  shownLevels (lookup ReportPosition.ticket report.positions position)

/-- The deal that an acknowledgement names, if the report has it. -/
def dealOf (report : FollowerReport) (o : AckOutcome) : Option ReportDeal :=
  o.deal.bind (lookup ReportDeal.ticket report.deals)

/-- `handle_slave_order_accepted`; the order is stored as it was acknowledged. -/
def accept (c : Option ClientOrderId) (order : Option ℕ) : Server :=
  match c with
  | some (.co p a) =>
    s.setMappings ((updateFound (Mapping.isCopy account (.co p a))
      (fun m => { m with slaveOrderId := order, status := .active }) (fun _ => rfl)
      s.service.mappings).getD s.service.mappings)
  | _ => s

/-- `_apply_mt5_outcome`. -/
def applyOutcome (report : FollowerReport) (o : AckOutcome) : Server :=
  if o.ok = false then
    let c := if o.kind = .openMarket ∨ o.kind = .placePending then o.clientOrderId else none
    { s with service := s.service.handleSlaveRejection account c }
  else
    match o.kind with
    | .openMarket =>
      match (o.position.filter (· ≠ 0)).or ((dealOf report o).map ReportDeal.position |>.filter (· ≠ 0)) with
      | none => s
      | some ticket =>
        s.send cfg now (s.service.handleSlaveFill gates account
          ⟨o.clientOrderId, ticket, o.volume.getD 0, none, o.order, shown report ticket⟩)
    | .closePosition =>
      if o.clientOrderId.isSome then
        s.send cfg now (s.service.handleSlaveFill gates account
          ⟨o.clientOrderId, (o.position.filter (· ≠ 0)).getD (((dealOf report o).map ReportDeal.position).getD 0),
            o.volume.getD 0, some (o.volume.getD 0), none, .unset⟩)
      else s
    | .placePending => s.accept account o.clientOrderId o.order
    | .cancelPending =>
      match o.order with
      | some ω => { s with service := s.service.handleSlaveOrderCancelled account ω }
      | none => s
    | _ => s

/-! ### Deals -/

/-- What a close on the net position can take from a row. -/
def shared (position : ℕ) (m : Mapping) : ℕ :=
  if m.slaveAccountId = account ∧ m.slavePositionId = some position ∧ m.status = .active then m.volume else 0

/-- The oldest of the rows that share the net position are reduced first. -/
def consumeShared (position volume : ℕ) (rows : List Mapping) : List Mapping :=
  (Fifo.consume (shared account position) (fun m k => some (m.reduce k)) rows volume).1

theorem consumeShared_keys (position volume : ℕ) (rows : List Mapping) :
    (consumeShared account position volume rows).map Mapping.clientOrderId = rows.map Mapping.clientOrderId := by
  unfold consumeShared
  induction rows generalizing volume with
  | nil => simp [Fifo.consume]
  | cons m rows ih =>
    rcases Fifo.consume_cons (shared account position) (fun m k => some (m.reduce k)) m rows volume with
      ⟨-, h⟩ | ⟨-, h⟩
    · rw [h, List.map_cons, ih, List.map_cons]
    · rw [h]
      simp only [Option.toList_some, List.singleton_append, List.map_cons]
      exact congrArg (List.cons m.clientOrderId) (ih _)

/-- `reduce_position_mappings_fifo`: rows are inserted in front, so the oldest is the last. -/
def reduceFifo (position volume : ℕ) (m : Mappings) : Mappings where
  rows := (consumeShared account position volume m.rows.reverse).reverse
  nodup := by
    have hkeys := consumeShared_keys account position volume m.rows.reverse
    have hnd : (m.rows.map Mapping.clientOrderId).Nodup := m.nodup
    show (((consumeShared account position volume m.rows.reverse).reverse).map Mapping.clientOrderId).Nodup
    rw [List.map_reverse, hkeys, List.map_reverse, List.reverse_reverse]
    exact hnd

/-- One deal of `_mt5_slave_deals`. -/
def bookDeal (report : FollowerReport) (known acked : List ℕ) (s : Server) (d : ReportDeal) : Server :=
  if d.dealType.side = none then s
  else if d.ticket ∈ s.settled account then
    { s with settled := Function.update s.settled account ((s.settled account).filter (· ≠ d.ticket)) }
  else if d.entry = .entryIn then
    if d.position ∈ known ∨ d.position ∈ acked then s
    else
      s.send cfg now (s.service.handleSlaveFill gates account
        ⟨none, d.position, d.volume, none, if d.order = 0 then none else some d.order, shown report d.position⟩)
  else if d.entry.isClose then
    if cfg.netting account then s.setMappings (reduceFifo account d.position d.volume s.service.mappings)
    else
      s.send cfg now (s.service.handleSlaveFill gates account
        ⟨none, d.position, d.volume, some d.volume, if d.order = 0 then none else some d.order, .unset⟩)
  else s

/-- The deals that an acknowledgement has booked. -/
def settledBy (outcomes : List AckOutcome) : List ℕ :=
  outcomes.filterMap fun o =>
    if o.ok ∧ o.clientOrderId.isSome ∧ (o.kind = .openMarket ∨ o.kind = .closePosition) then
      o.deal.filter (· ≠ 0)
    else none

/-- `acked_positions`. -/
def ackedPositions (outcomes : List AckOutcome) : List ℕ :=
  outcomes.filterMap fun o =>
    if o.ok ∧ o.kind = .openMarket then o.position.filter (· ≠ 0) else none

/-- `known`: the positions of the account's rows, whatever their status. -/
def knownPositions (m : Mappings) : List ℕ :=
  m.rows.filterMap fun m =>
    if m.slaveAccountId = account then m.slavePositionId.filter (· ≠ 0) else none

/-- `_mt5_slave_deals`. -/
def slaveDeals (report : FollowerReport) (deals : List ReportDeal) (outcomes : List AckOutcome) : Server :=
  let settled := s.settled account ++ (settledBy outcomes).filter (· ∉ s.settled account)
  let s := { s with settled := Function.update s.settled account settled }
  deals.foldl (bookDeal cfg gates now account report (knownPositions account s.service.mappings)
    (ackedPositions outcomes)) s

/-! ### Delivery -/

/-- The mapping half of `fail_stale_mt5_opens`. -/
def expireMappings (m : Mappings) : Mappings :=
  (s.rows.filter fun r => r.stale account now).foldl (fun m r =>
    match r.clientOrderId with
    | some c => failStaleOpen account c m
    | none => m) m

/-- The mapping half of `_give_up`; no row has a `:close` client order id. -/
def giveUpMappings (m : Mappings) : Mappings :=
  ((unexpired account now s.rows).filter fun r => r.exhausted account now).foldl (fun m r =>
    match r.clientOrderId with
    | some c => if r.closing then m else (failMapping account c m).getD m
    | none => m) m

/-- `deliverable`. -/
def deliver : Server × List CommandRow :=
  let x := deliverable account now s.rows
  ({ s with
      rows := x.1
      service := { s.service with
        mappings := s.giveUpMappings now account (s.expireMappings now account s.service.mappings) } }, x.2)

/-! ### The poll -/

/-- The acknowledgements of a report. -/
def settle (report : FollowerReport) : Server :=
  let x := applyAcks account s.rows report.acks
  x.2.foldl (fun s o => s.applyOutcome cfg gates now account report o) { s with rows := x.1 }

/-- The deals past the watermark, in time order. -/
def freshDeals (report : FollowerReport) : List ReportDeal :=
  sortedDeals (report.deals.filter fun d => s.watermark account < d.ticket)

/-- The deals of a report (`_ingest_mt5_deals`, `_mt5_slave_deals`); `s` has settled the acknowledgements. -/
def ingest (report : FollowerReport) (outcomes : List AckOutcome) : Server :=
  let fresh := s.freshDeals account report
  let top := (fresh.map ReportDeal.ticket).foldl max (s.watermark account)
  let s := { s with watermark := Function.update s.watermark account top }
  if fresh = [] ∧ outcomes = [] then s else s.slaveDeals cfg gates now account report fresh outcomes

/-- `mt5_sync` of a follower: the reply are the commands. -/
def sync (report : FollowerReport) : Server × List CommandRow :=
  ((s.settle cfg gates now account report).ingest cfg gates now account report
    (applyAcks account s.rows report.acks).2).deliver now account

end Server

end Copier.Mt5
