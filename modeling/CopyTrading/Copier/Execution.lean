import CopyTrading.Copier.Normalize
import CopyTrading.Copier.Routing
import CopyTrading.Copier.Service

/-!
# Copier.Execution — an execution event of any account (`handle_execution` of `engine/service.py`)

The account's org is looked up, the org's master is asked for a master event and decided on, and an
event of any other account of the org is bookkeeping of its copies.
-/

namespace Copier

/-- An execution event with the client order id of its order. -/
structure BrokerEvent where
  event : ExecutionEvent
  clientOrderId : Option ClientOrderId
  deriving DecidableEq

/-- What an event is handled against: the routing, the masters' symbols, the gates. -/
structure Config where
  routing : OrgRouting
  masterSymbolsByOrg : ℕ → ℕ → Option MasterSymbol
  orgs : ℕ → Org

/-- The handling of one event. -/
structure Handled where
  service : Service
  /-- The master event given to `decide`, with its org. -/
  decided : Option (ℕ × MasterEvent)
  /-- The intents given to the dispatcher, with the org whose gates it reads. -/
  dispatched : List (ℕ × SlaveIntent)
  /-- The requests that are sent. -/
  requests : List SlaveIntent

/-- Nothing happens. -/
def Handled.ignored (st : Service) : Handled := ⟨st, none, [], []⟩

/-- What a handler leaves is dispatched under the org's gates. -/
def Handled.dispatching (org : ℕ) (gates : Org) (decided : Option (ℕ × MasterEvent))
    (r : Service × List SlaveIntent) : Handled :=
  ⟨(Service.send gates r).1, decided, r.2.map fun i => (org, i), (Service.send gates r).2⟩

/-- The report a slave's event is. -/
def BrokerEvent.report (x : BrokerEvent) : Option Report :=
  if x.event.isFill then
    some (.filled ⟨x.clientOrderId, x.event.deal.positionId, x.event.deal.filledVolume,
      x.event.deal.closePositionDetail, some x.event.order.orderId, .unset⟩)
  else
    match x.event.executionType with
    | .orderAccepted => some (.accepted x.clientOrderId x.event.order.orderId)
    | .orderCancelled => some (.cancelled x.event.order.orderId)
    | _ => none

namespace Config

variable (cfg : Config)

/-- `_handle_master_event`. -/
def handleMasterEvent (org : ℕ) (x : BrokerEvent) (st : Service) : Handled :=
  match normalize x.event (cfg.masterSymbolsByOrg org) with
  | none => .ignored st
  | some e => .dispatching org (cfg.orgs org) (some (org, e)) (st.decided (cfg.routing.slavesByOrg org) e)

/-- `_handle_slave_event`. -/
def handleSlaveEvent (org a : ℕ) (x : BrokerEvent) (st : Service) : Handled :=
  if (cfg.routing.slavesByOrg org).any fun s => s.accountId = a && s.enabled then
    match x.report with
    | some r => .dispatching org (cfg.orgs org) none (st.bookReport a r)
    | none =>
      if x.event.executionType = .orderRejected then
        .ignored (st.handleSlaveRejection a x.clientOrderId)
      else .ignored st
  else .ignored st

/-- `handle_execution`. -/
def handleExecution (a : ℕ) (x : BrokerEvent) (st : Service) : Handled :=
  match cfg.routing.orgByAccount a with
  | none => .ignored st
  | some org =>
    if cfg.routing.masterByOrg org = some a then cfg.handleMasterEvent org x st
    else cfg.handleSlaveEvent org a x st

/-- `a` is the master of the org it belongs to. -/
def IsMaster (a : ℕ) : Prop :=
  ∃ org, cfg.routing.orgByAccount a = some org ∧ cfg.routing.masterByOrg org = some a

end Config

/-- What becomes of an event: nothing, a decision for the org whose master it is from, or the bookkeeping
of a report. -/
inductive Outcome (cfg : Config) (a : ℕ) (x : BrokerEvent) (st : Service) : Handled → Prop where
  | ignored (st' : Service) : Outcome cfg a x st (.ignored st')
  | decided (org : ℕ) (e : MasterEvent) : cfg.routing.orgByAccount a = some org →
    cfg.routing.masterByOrg org = some a →
    Outcome cfg a x st
      (.dispatching org (cfg.orgs org) (some (org, e)) (st.decided (cfg.routing.slavesByOrg org) e))
  | reported (org : ℕ) (r : Report) : cfg.routing.orgByAccount a = some org → x.report = some r →
    Outcome cfg a x st (.dispatching org (cfg.orgs org) none (st.bookReport a r))

theorem handleExecution_outcome (cfg : Config) (a : ℕ) (x : BrokerEvent) (st : Service) :
    Outcome cfg a x st (cfg.handleExecution a x st) := by
  unfold Config.handleExecution
  cases horg : cfg.routing.orgByAccount a with
  | none => exact .ignored st
  | some org =>
    simp only
    split_ifs with hm
    · unfold Config.handleMasterEvent
      split
      · exact .ignored st
      · exact .decided org _ horg hm
    · unfold Config.handleSlaveEvent
      split_ifs
      · split
        · next r hr => exact .reported org r horg hr
        · exact .ignored _
      · split
        · next r hr => exact .reported org r horg hr
        · exact .ignored _
      · exact .ignored st

end Copier
