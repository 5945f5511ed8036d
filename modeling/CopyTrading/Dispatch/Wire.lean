import CopyTrading.Copier.Routing
import CopyTrading.Dispatch.Throttle
import CopyTrading.Lib.Machine

/-!
# Dispatch.Wire — from a request to the wire (`engine/dispatch.py`, `main.py`, `ctrader/client.py`)

A request waits for the throttle, is checked against its account's client and is written to the
client's connection; a failure before the write is retried after 1, 2 and 4 seconds.  A reactor turn is
a list of callbacks that run one after the other (`todo`); timers, connections and answers start turns.
-/

namespace Copier.Dispatch

/-- The buckets: the shared one, and the one of the kill switch's flatten. -/
inductive Lane where
  | shared | flatten
  deriving DecidableEq, Repr

instance : Fintype Lane := ⟨{.shared, .flatten}, fun l => by cases l <;> decide⟩

/-- A request on its way. -/
structure Job where
  /-- Its place in the order of dispatches. -/
  id : ℕ
  request : SlaveIntent
  /-- The position or order of the account that the request is about. -/
  target : ℕ
  /-- The org a copy belongs to; none for an operator's request. -/
  org : Option ℕ
  lane : Lane
  attempt : ℕ
  deriving DecidableEq

def Job.account (j : Job) : ℕ := j.request.slaveAccountId

/-- `RETRY_DELAYS`. -/
def retryDelay : ℕ → ℚ
  | 0 => 1
  | 1 => 2
  | _ => 4

/-- `SEND_HANDOFF_TIMEOUT_S`. -/
def sendHandoffTimeout : ℚ := 2

/-- A `CTraderClient`: what it tracks, and what is so at the broker. -/
structure Link where
  /-- The connection the SDK has; each one has a number of its own. -/
  conn : Option ℕ
  /-- `stop()` was called: the SDK does not connect again. -/
  stopping : Bool
  ready : Bool
  accounts : List ℕ
  authed : List ℕ
  /-- Which accounts were answered on which connection. -/
  answered : List (ℕ × ℕ)
  deriving DecidableEq

/-- A request written to a connection. -/
structure Sent where
  job : Job
  client : ℕ
  conn : ℕ
  /-- Whether the account was registered and authed, and answered on this connection, at the write. -/
  registered : Bool
  authed : Bool
  deriving DecidableEq

/-- `whenConnected()` is pending: until `deadline`. -/
structure Handoff where
  job : Job
  client : ℕ
  deadline : ℚ

/-- `callLater(delay, _send_with_retries, …)`. -/
structure Retry where
  due : ℚ
  job : Job

/-- A callback of this reactor turn: the throttle granted the request, its connection came up, or the
wait for one ended without. -/
inductive Task where
  | send (job : Job)
  | deliver (job : Job) (client : ℕ)
  | refuse (job : Job)

/-- The request a callback is about. -/
def Task.job : Task → Job
  | .send j => j
  | .deliver j _ => j
  | .refuse j => j

/-- What can go wrong in one attempt: the database when the account is looked up, the transport's send
(which then wrote nothing), the database in the bookkeeping after the write. -/
structure Faults where
  lookupFails : Bool
  sendRaises : Bool
  bookkeepingFails : Bool
  deriving DecidableEq

def Faults.none : Faults := ⟨false, false, false⟩

/-- How an attempt ends: the request was written, was not attempted (`SendNotAttempted`), failed in
another way, or still waits for a connection. -/
inductive Verdict where
  | written (client conn : ℕ)
  | notAttempted
  | ambiguous
  | pending (client : ℕ)
  deriving DecidableEq

/-- The reactor with its clients, queues and retries. -/
structure State where
  now : ℚ
  buckets : Lane → TokenBucket Job
  /-- `clients_by_account`. -/
  clientOf : ℕ → Option ℕ
  links : ℕ → Link
  handoffs : List Handoff
  retries : List Retry
  todo : List Task
  /-- Newest first. -/
  wire : List Sent
  /-- Requests given up, or failed in a way that must not be retried. -/
  lost : List Job
  statuses : Statuses
  nextJob : ℕ
  nextConn : ℕ
  /-- How often `_send_with_retries` ran for a request. -/
  attempts : ℕ → ℕ

namespace State

/-- A client before its first connection. -/
def idleLink : Link := ⟨.none, false, false, [], [], []⟩

/-- `rate` and `capacity` of the two buckets: 40 and 40, 20 and 4. -/
def newBucket : Lane → TokenBucket Job
  | .shared => .new ⟨40, by norm_num⟩ 40 0
  | .flatten => .new ⟨20, by norm_num⟩ 4 0

def init : State :=
  ⟨0, newBucket, fun _ => none, fun _ => idleLink, [], [], [], [], [], fun _ => .ok, 0, 0, fun _ => 0⟩

def setLink (s : State) (c : ℕ) (l : Link) : State := { s with links := Function.update s.links c l }

/-- `send_no_reply`: a connected SDK gets the request in this turn; one that is connecting or being
stopped lets it wait; a stopped one fails. -/
def sendNoReply (s : State) (f : Faults) (client : ℕ) : Verdict :=
  match (s.links client).conn with
  | some conn =>
    if (s.links client).stopping then .pending client
    else if f.sendRaises then .notAttempted else .written client conn
  | none => if (s.links client).stopping then .notAttempted else .pending client

/-- `send_for_account`.  A database error while the account is looked up is not `SendNotAttempted`. -/
def sendForAccount (s : State) (f : Faults) (account : ℕ) : Verdict :=
  if f.lookupFails then .ambiguous
  else
    match s.clientOf account with
    | none => .notAttempted
    | some client =>
      if (s.links client).ready = false then .notAttempted
      else if account ∉ (s.links client).accounts then .notAttempted
      else if account ∉ (s.links client).authed then .notAttempted
      else s.sendNoReply f client

/-- What becomes of a callback's request: `_on_connected` writes it, a wait that ends without a
connection is reclassified as not attempted. -/
def verdict (s : State) (f : Faults) : Task → Verdict
  | .send j => s.sendForAccount f j.account
  | .deliver _ client =>
    match (s.links client).conn with
    | some conn => if f.sendRaises then .notAttempted else .written client conn
    | none => .notAttempted
  | .refuse _ => .notAttempted

/-- `_on_send_failure`: only `SendNotAttempted` is retried, three times. -/
def onSendFailure (s : State) (j : Job) (attempted : Bool) : State :=
  if !attempted && j.attempt < 3 then
    { s with retries := s.retries ++
      [⟨s.now + retryDelay j.attempt, { j with attempt := j.attempt + 1 }⟩] }
  else { s with statuses := setAccountStatus s.statuses j.account .degraded }

/-- `_on_send_success`; a database error there falls through to `_on_send_failure`. -/
def onSendSuccess (s : State) (f : Faults) (j : Job) : State :=
  if f.bookkeepingFails then s.onSendFailure j true
  else { s with statuses := clearDegraded s.statuses j.account }

/-- The record of a write. -/
def sent (s : State) (j : Job) (client conn : ℕ) : Sent :=
  ⟨j, client, conn, Decidable.decide (j.account ∈ (s.links client).accounts),
    Decidable.decide (j.account ∈ (s.links client).authed ∧
      (conn, j.account) ∈ (s.links client).answered)⟩

/-- The callbacks of an attempt that has ended. -/
def settle (s : State) (f : Faults) (j : Job) : Verdict → State
  | .written client conn =>
    { s with wire := s.sent j client conn :: s.wire }.onSendSuccess f j
  | .notAttempted =>
    -- the ladder ends with the fourth attempt
    { s with lost := if j.attempt < 3 then s.lost else s.lost ++ [j] }.onSendFailure j false
  | .ambiguous => { s with lost := s.lost ++ [j] }.onSendFailure j true
  | .pending client =>
    { s with handoffs := s.handoffs ++ [⟨j, client, s.now + sendHandoffTimeout⟩] }

/-- `_send_with_retries`: a grant runs in this turn. -/
def sendWithRetries (s : State) (j : Job) : State :=
  let r := (s.buckets j.lane).acquire s.now j
  let s := { s with buckets := Function.update s.buckets j.lane r.1
                    attempts := Function.update s.attempts j.id (s.attempts j.id + 1) }
  if r.2 then { s with todo := [.send j] } else s

/-- The waiters of a client's `whenConnected()`. -/
def waitingFor (s : State) (client : ℕ) : List Job :=
  (s.handoffs.filter fun h => h.client = client).map Handoff.job

/-- They are called back, or fail. -/
def settleHandoffs (s : State) (client : ℕ) (task : Job → Task) : State :=
  { s with todo := (s.waitingFor client).map task
           handoffs := s.handoffs.filter fun h => h.client ≠ client }

end State

/-- What starts a reactor turn, and the callbacks of one. -/
inductive Action where
  /-- The next callback of this turn. -/
  | run (f : Faults)
  | dispatch (request : SlaveIntent) (target : ℕ) (org : Option ℕ) (lane : Lane)
  | advance (dt : ℚ)
  | drain (lane : Lane)
  | retry (i : ℕ)
  /-- The wait for a connection times out. -/
  | timeout (i : ℕ)
  | connect (client : ℕ)
  | connectFails (client : ℕ)
  | disconnect (client : ℕ)
  | stop (client : ℕ)
  /-- The application is authenticated. -/
  | becomeReady (client : ℕ)
  | authorize (client account : ℕ)
  | deauthorize (client account : ℕ)
  /-- The broker accepts an account on the current connection. -/
  | authAnswer (client account : ℕ)
  /-- The account's row names another client, or none. -/
  | assign (account : ℕ) (client : Option ℕ)
  deriving DecidableEq

namespace State

/-- A turn starts: a dispatch, a timer, a connection, an answer.  The disconnect callback runs in the turn
in which the connection goes. -/
def start (s : State) : Action → Option State
  | .run _ => none
  | .dispatch request target org lane =>
    some ({ s with nextJob := s.nextJob + 1 }.sendWithRetries ⟨s.nextJob, request, target, org, lane, 0⟩)
  | .advance dt => if 0 ≤ dt then some { s with now := s.now + dt } else none
  | .drain lane =>
    match (s.buckets lane).pendingCall with
    | some due =>
      if due ≤ s.now then
        let r := (s.buckets lane).drain s.now
        some { s with buckets := Function.update s.buckets lane r.1, todo := r.2.map .send }
      else none
    | none => none
  | .retry i =>
    match s.retries[i]? with
    | some r =>
      if r.due ≤ s.now then some ({ s with retries := s.retries.eraseIdx i }.sendWithRetries r.job)
      else none
    | none => none
  | .timeout i =>
    match s.handoffs[i]? with
    | some h =>
      if h.deadline ≤ s.now then
        some { s with handoffs := s.handoffs.eraseIdx i, todo := [.refuse h.job] }
      else none
    | none => none
  | .connect c =>
    if (s.links c).conn = none ∧ (s.links c).stopping = false then
      some ({ s.setLink c { s.links c with conn := some s.nextConn } with
        nextConn := s.nextConn + 1 }.settleHandoffs c fun j => .deliver j c)
    else none
  | .connectFails c =>
    if (s.links c).conn = none then some (s.settleHandoffs c .refuse) else none
  | .disconnect c =>
    if (s.links c).conn = none then none
    else
      let s' := s.setLink c { s.links c with conn := none, authed := [] }
      -- a stopped SDK fails those who wait
      some (if (s.links c).stopping then s'.settleHandoffs c .refuse else s')
  | .stop c => some (s.setLink c { s.links c with stopping := true })
  | .becomeReady c => some (s.setLink c { s.links c with ready := true })
  | .authorize c x => some (s.setLink c { s.links c with accounts := x :: (s.links c).accounts })
  | .deauthorize c x =>
    some (s.setLink c { s.links c with
      accounts := (s.links c).accounts.filter (· ≠ x), authed := (s.links c).authed.filter (· ≠ x) })
  | .authAnswer c x =>
    match (s.links c).conn with
    | some conn => some (s.setLink c { s.links c with
        authed := x :: (s.links c).authed, answered := (conn, x) :: (s.links c).answered })
    | none => none
  | .assign x client => some { s with clientOf := Function.update s.clientOf x client }

/-- The state after an action; `none` if it cannot happen now. -/
def fire (a : Action) (s : State) : Option State :=
  match s.todo with
  | [] => s.start a
  | t :: ts =>
    match a with
    | .run f => some ({ s with todo := ts }.settle f t.job (s.verdict f t))
    | _ => none

end State

end Copier.Dispatch
