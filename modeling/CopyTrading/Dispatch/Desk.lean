import CopyTrading.Dispatch.Flow
import CopyTrading.Mt5.Outbox

/-!
# Dispatch.Desk — dispatching and its effects (`engine/dispatch.py`, the MT5 part of `main.py`)

`dispatch` reads the org's gates once for a batch of intents and hands each live one to the throttle or to
a terminal's outbox.  Around it: the reactor's turns, the terminals' polls and acknowledgements, the
operators' requests, and what all of them write to the status of an account.
-/

namespace Copier.Dispatch

open Mt5

/-- `dispatch` at work: the gates it read and the intents it has left. -/
structure Batch where
  org : ℕ
  gates : Org
  intents : List SlaveIntent

/-- Where an exception ends the processing of an intent: not at all, before anything was handed over, or
in the log after a command was queued. -/
inductive Raised where
  | no | before | after
  deriving DecidableEq

structure Desk where
  reactor : State
  outbox : List CommandRow
  /-- The committed rows of `orgs`. -/
  orgs : ℕ → Org
  batch : Option Batch
  /-- `mt5_targets`. -/
  targets : ℕ → Option (ℕ → Option String)
  netting : ℕ → Bool
  /-- The commands handed to terminals, newest first. -/
  handed : List CommandRow

namespace Desk

/-- What happens next at the desk. -/
inductive Action where
  /-- A turn of the reactor, an operator's request among them. -/
  | turn (a : Dispatch.Action)
  | dispatch (org : ℕ) (intents : List SlaveIntent)
  /-- The next intent of the batch. -/
  | intent (target : ℕ) (raised : Raised)
  /-- The gates are written, by this process or by the api. -/
  | commit (org : ℕ) (gates : Org)
  /-- A command of an operator. -/
  | operate (account org : ℕ) (payload : Payload)
  | hello (account : ℕ)
  /-- A terminal's report, with the reply; `online` if the previous one was recent. -/
  | poll (account : ℕ) (online : Bool)
  | ack (account id : ℕ) (ok : Bool)
  /-- `check_mt5_offline`, with the accounts whose terminal is silent. -/
  | checkOffline (silent : List ℕ)
  /-- `_authorize_one`: accepted, or failed or refused. -/
  | authorizeOne (account : ℕ) (ok : Bool)
  | pause (account : ℕ)
  | resume (account : ℕ)

variable (targets : ℕ → Option (ℕ → Option String)) (netting : ℕ → Bool) (orgs : ℕ → Org)

/-- Nothing has been dispatched. -/
def init : Desk := ⟨State.init, [], orgs, none, targets, netting, []⟩

variable (d : Desk)

def setStatuses (statuses : Statuses) : Desk :=
  { d with reactor := { d.reactor with statuses := statuses } }

/-- `set_account_status(account, 'degraded', …)`. -/
def degrade (account : ℕ) : Desk :=
  d.setStatuses (setAccountStatus d.reactor.statuses account .degraded)

/-- `clear_degraded(account)`. -/
def clear (account : ℕ) : Desk := d.setStatuses (clearDegraded d.reactor.statuses account)

/-- `targets.get(intent.symbol_id)`, asked for opens only. -/
def brokerSymbol (symbols : ℕ → Option String) : SlaveIntent → Option String
  | .openMarket i => symbols i.symbolId
  | .placePending i => symbols i.symbolId
  | _ => some ""

/-- `_enqueue_for_mt5`. -/
def enqueueForMt5 (org : ℕ) (i : SlaveIntent) (symbols : ℕ → Option String) : Desk :=
  match brokerSymbol symbols i with
  | none => d
  | some symbol =>
    match enqueueIntent (d.netting i.slaveAccountId) d.outbox d.outbox.length org d.reactor.now symbol
      i with
    | none => d.degrade i.slaveAccountId
    | some row => { d with outbox := d.outbox ++ [row] }

/-- `_handle_live_send`. -/
def handleLiveSend (org target : ℕ) (i : SlaveIntent) : Desk :=
  match d.targets i.slaveAccountId with
  | some symbols => d.enqueueForMt5 org i symbols
  | none =>
    let j : Job := ⟨d.reactor.nextJob, i, target, some org, .shared, 0⟩
    { d with reactor := { d.reactor with nextJob := d.reactor.nextJob + 1 }.sendWithRetries j }

/-- One intent of `dispatch`: the requests it makes.  The mappings are written elsewhere. -/
def processIntent (org target : ℕ) (gates : Org) : SlaveIntent → Desk
  | .alert _ => d
  | .linkPendingFill _ => d
  | i =>
    if gates.copyingEnabled = false then d
    else if gates.dryRun then d
    else d.handleLiveSend org target i

/-- The same with its exception handler. -/
def dispatchIntent (org target : ℕ) (gates : Org) (raised : Raised) (i : SlaveIntent) : Desk :=
  match raised with
  | .no => d.processIntent org target gates i
  | .before => d.degrade i.slaveAccountId
  | .after => (d.processIntent org target gates i).degrade i.slaveAccountId

/-- No turn is under way. -/
def idle : Bool := d.batch.isNone && d.reactor.todo.isEmpty

/-- A copy is dispatched by a batch only. -/
def isCopy : Dispatch.Action → Bool
  | .dispatch _ _ (some _) _ => true
  | _ => false

/-- `apply_acks` and the status part of `_apply_mt5_outcome`; an id that is not open changes nothing. -/
def settleAck (account id : ℕ) (ok : Bool) : Desk :=
  if d.outbox.any fun r => r.id = id && r.isOpen && r.accountId = account then
    let d' := { d with outbox := d.outbox.map (CommandRow.complete account id ok) }
    if ok then d'.clear account else d'.degrade account
  else d

/-- The accounts that are silent and not paused become degraded. -/
def offline (silent : List ℕ) : Statuses := fun x =>
  if x ∈ silent ∧ d.reactor.statuses x ≠ .paused then .degraded else d.reactor.statuses x

/-- What starts a turn of its own. -/
def start : Action → Option Desk
  | .dispatch org intents => some { d with batch := some ⟨org, d.orgs org, intents⟩ }
  | .operate account org payload =>
    some { d with outbox := d.outbox ++
      [queuedRow d.outbox.length account org d.reactor.now payload none false false] }
  | .hello account => some (d.clear account)
  | .poll account online =>
    let d := if online then d else d.clear account
    some { d with outbox := (deliverable account d.reactor.now d.outbox).1
                  handed := (deliverable account d.reactor.now d.outbox).2.reverse ++ d.handed }
  | .ack account id ok => some (d.settleAck account id ok)
  | .checkOffline silent => some (d.setStatuses (d.offline silent))
  | .authorizeOne account ok => some (if ok then d.clear account else d.degrade account)
  | .pause account => some (d.setStatuses (setAccountStatus d.reactor.statuses account .paused))
  | .resume account => some (d.setStatuses (setAccountStatus d.reactor.statuses account .ok))
  | _ => none

def fire (a : Action) (d : Desk) : Option Desk :=
  match a with
  | .turn a =>
    if isCopy a then none
    -- while a batch is worked on, only the callbacks of its last intent run
    else if d.batch.isSome ∧ d.reactor.todo.isEmpty then none
    else (State.fire a d.reactor).map fun r => { d with reactor := r }
  | .intent target raised =>
    if d.reactor.todo.isEmpty then
      match d.batch with
      | none => none
      | some ⟨_, _, []⟩ => some { d with batch := none }
      | some ⟨org, gates, i :: is⟩ =>
        some ({ d with batch := some ⟨org, gates, is⟩ }.dispatchIntent org target gates raised i)
    else none
  | .commit org gates => some { d with orgs := Function.update d.orgs org gates }
  | a => if d.idle then d.start a else none

end Desk

/-! ### What an action does -/

section Fired

variable {d d' : Desk} {o org target : ℕ} {i : SlaveIntent} {a : Desk.Action}

/-- What an action does to the requests and the commands; the statuses are left open. -/
inductive Fired (d : Desk) : Desk.Action → Desk → Prop where
  | turn (a : Action) (r : State) : Desk.isCopy a = false → State.fire a d.reactor = some r →
    Fired d (.turn a) { d with reactor := r }
  | dispatch (org : ℕ) (intents : List SlaveIntent) :
    Fired d (.dispatch org intents) { d with batch := some ⟨org, d.orgs org, intents⟩ }
  | last (target : ℕ) (raised : Raised) : Fired d (.intent target raised) { d with batch := none }
  | intent (b : Batch) (i : SlaveIntent) (is : List SlaveIntent) (target : ℕ) (raised : Raised) :
    d.batch = some b → d.reactor.todo = [] →
    Fired d (.intent target raised)
      ({ d with batch := some { b with intents := is } }.dispatchIntent b.org target b.gates raised i)
  | commit (org : ℕ) (gates : Org) :
    Fired d (.commit org gates) { d with orgs := Function.update d.orgs org gates }
  | operate (account org : ℕ) (payload : Payload) :
    Fired d (.operate account org payload) { d with outbox := d.outbox ++
      [queuedRow d.outbox.length account org d.reactor.now payload none false false] }
  | poll (account : ℕ) (online : Bool) (statuses : Statuses) :
    Fired d (.poll account online)
      { d.setStatuses statuses with
        outbox := (deliverable account d.reactor.now d.outbox).1
        handed := (deliverable account d.reactor.now d.outbox).2.reverse ++ d.handed }
  | ack (account id : ℕ) (ok : Bool) (statuses : Statuses) :
    Fired d (.ack account id ok)
      { d.setStatuses statuses with outbox := d.outbox.map (CommandRow.complete account id ok) }
  | statuses (a : Desk.Action) (statuses : Statuses) : Fired d a (d.setStatuses statuses)

theorem settleAck_fired (account id : ℕ) (ok : Bool) :
    Fired d (.ack account id ok) (d.settleAck account id ok) := by
  unfold Desk.settleAck
  split_ifs
  · exact .ack account id ok _
  · exact .ack account id ok _
  · exact .statuses _ d.reactor.statuses

theorem start_fired (h : d.start a = some d') : Fired d a d' := by
  cases a with
  | turn a | intent target raised | commit org gates => cases h
  | dispatch org intents =>
    cases h
    exact .dispatch org intents
  | operate account org payload =>
    cases h
    exact .operate account org payload
  | poll account online =>
    cases h
    cases online with
    | true => exact .poll account true d.reactor.statuses
    | false => exact .poll account false _
  | ack account id ok =>
    cases h
    exact settleAck_fired account id ok
  | authorizeOne account ok =>
    cases h
    cases ok with
    | true | false => exact .statuses _ _
  | hello account | checkOffline silent | pause account | resume account =>
    cases h
    exact .statuses _ _

theorem fire_fired (h : Desk.fire a d = some d') : Fired d a d' := by
  cases a with
  | turn a =>
    simp only [Desk.fire] at h
    split_ifs at h with hc
    obtain ⟨r, hr, rfl⟩ := Option.map_eq_some_iff.1 h
    exact .turn a r (by simpa using hc) hr
  | intent target raised =>
    simp only [Desk.fire] at h
    split_ifs at h with hs
    split at h
    · cases h
    · cases h
      exact .last target raised
    · next org gates i is hb =>
      cases h
      exact .intent ⟨org, gates, i :: is⟩ i is target raised hb (List.isEmpty_iff.1 hs)
  | commit org gates =>
    cases h
    exact .commit org gates
  | _ =>
    simp only [Desk.fire] at h
    split_ifs at h
    exact start_fired h

/-- Only live gates let an intent through; an exception changes the status only. -/
theorem dispatchIntent_cases (d : Desk) (org target : ℕ) (gates : Org) (raised : Raised)
    (i : SlaveIntent) :
    (∃ statuses, d.dispatchIntent org target gates raised i = d.setStatuses statuses) ∨
      (gates.copies = true ∧ ∃ statuses, d.dispatchIntent org target gates raised i =
        (d.handleLiveSend org target i).setStatuses statuses) := by
  have hprocess : d.processIntent org target gates i = d ∨ (gates.copies = true ∧
      d.processIntent org target gates i = d.handleLiveSend org target i) := by
    cases i with
    | alert i | linkPendingFill i => exact .inl rfl
    | _ =>
      simp only [Desk.processIntent]
      split_ifs with he hd
      · exact .inl rfl
      · exact .inl rfl
      · exact .inr ⟨by simp [Org.copies, he, hd], rfl⟩
  cases raised with
  | before => exact .inl ⟨_, rfl⟩
  | no =>
    rcases hprocess with hp | ⟨hg, hp⟩
    · exact .inl ⟨d.reactor.statuses, hp⟩
    · exact .inr ⟨hg, (d.handleLiveSend org target i).reactor.statuses, hp⟩
  | after =>
    simp only [Desk.dispatchIntent]
    rcases hprocess with hp | ⟨hg, hp⟩
    · rw [hp]
      exact .inl ⟨_, rfl⟩
    · rw [hp]
      exact .inr ⟨hg, _, rfl⟩

end Fired

/-- Account 7 is given to client 0, which is connected. -/
def Desk.sampleLink : List Desk.Action :=
  [.turn (.connect 0), .turn (.becomeReady 0), .turn (.authorize 0 7), .turn (.assign 7 (some 0))]

end Copier.Dispatch
