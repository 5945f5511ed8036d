import CopyTrading.Lib.Machine
import CopyTrading.Webhook.Act

/-!
# Webhook.Receiver — deliveries side by side (`_handle`, `_handle_vt_ltf`, `webhook_receipts`)

Every delivery that gets past the front door runs one transaction under the workspace's advisory lock: look for the
fingerprint, count the minute, insert a provisional receipt.  The calls to the copier come after the commit and
without the lock, and the receipt is rewritten when they are over.  `received_at` is the time the transaction
began, not the time it got the lock.
-/

namespace Webhook

/-- `DEDUP_WINDOW_S`. -/
def dedupWindow : ℚ := 20

/-- `interval '1 minute'`. -/
def minute : ℚ := 60

/-- The content of `_fingerprint` and `_vt_fingerprint`. -/
inductive Fingerprint where
  | alert (action : AlertAction) (symbol : String) (lots stopLoss takeProfit : Option ℚ) (orderType : OrderType)
      (price : Option ℚ) (alertId : Option String)
  | bridge (symbol tf : String) (barMs : ℤ)
  deriving DecidableEq

/-- What a delivery asks for. -/
inductive Job where
  | alert (a : Alert)
  /-- A triggered entry. -/
  | bridge (vt : VTAlert)
  deriving DecidableEq

def Job.fingerprint : Job → Fingerprint
  | .alert a => .alert a.action a.symbol a.lots a.stopLoss a.takeProfit a.orderType a.price
      (if a.action = .cancel then some a.alertId else none)
  | .bridge vt => .bridge vt.symbol vt.tf vt.barMs

/-- A row of `webhook_receipts` of the workspace. -/
structure Receipt where
  id : ℕ
  receivedAt : ℚ
  outcome : ReceiptOutcome
  fingerprint : Option Fingerprint
  deriving DecidableEq

/-- `outcome IN ('accepted', 'unknown')`. -/
def Receipt.counted (r : Receipt) : Bool := r.outcome = .accepted || r.outcome = .unknown

/-- `_finish`. -/
def Receipt.finish (v : Verdict) (r : Receipt) : Receipt :=
  { r with outcome := v.outcome, fingerprint := if v.clearFp then none else r.fingerprint }

/-- The row with this id is finished. -/
def Receipt.finishAt (id : ℕ) (v : Verdict) (r : Receipt) : Receipt := if r.id = id then r.finish v else r

/-- The workspace's settings. -/
structure Workspace where
  py : Python
  master : ℕ
  maxLots : Option PyFloat
  maxPerMinute : ℕ
  maxOpen : ℕ
  aliases : List (String × Json)
  allowedTimeframes : List String

/-- How far a delivery has got. -/
inductive Phase where
  /-- The transaction has begun and asks for the lock. -/
  | waiting
  | locked
  /-- No duplicate was found. -/
  | unique
  /-- The minute has room. -/
  | admitted
  /-- The provisional row is inserted. -/
  | inserted (id : ℕ)
  /-- A `duplicate` or `rejected` row is inserted. -/
  | refusing (id : ℕ) (outcome : ReceiptOutcome)
  /-- Committed: the calls are made. -/
  | acting (id : ℕ)
  /-- The calls are over. -/
  | judged (id : ℕ) (v : Verdict)
  | done

/-- An alert on its way through the handler. -/
structure Delivery where
  job : Job
  receivedAt : ℚ
  phase : Phase

/-- An order that was written to the copier. -/
structure Sent where
  receipt : ℕ
  fingerprint : Fingerprint
  receivedAt : ℚ
  order : Order
  outcome : Outcome
  deriving DecidableEq

/-- The receipts and the deliveries in progress. -/
structure Receiver where
  /-- Committed rows, the last commit first. -/
  receipts : List Receipt
  nextId : ℕ
  /-- The delivery that holds the advisory lock. -/
  lock : Option ℕ
  deliveries : ℕ → Option Delivery
  clock : ℚ
  /-- Every order written so far. -/
  sent : List Sent

/-- What happens next to the receiver. -/
inductive ReceiverAction where
  /-- A delivery has passed the front door: its transaction begins. -/
  | receive (i : ℕ) (body : Json)
  /-- Its next statement. -/
  | run (i : ℕ)
  /-- Its calls to the copier; a bridge alert has read the stored snapshot. -/
  | act (i : ℕ) (snapshot : Option VTSnapshot) (answers : ℕ → Outcome)
  /-- The connection ends. -/
  | drop (i : ℕ)
  /-- A row of another handler: a refusal at the door, a bridge alert that trades nothing. -/
  | record (outcome : ReceiptOutcome)
  | tick (now : ℚ)

namespace Receiver

variable (w : Workspace) (s : Receiver)

/-- `parse_alert` and `parse_vt_alert`, with the workspace's rename; `none` if the body asks for nothing. -/
def read (body : Json) : Option Job :=
  match body with
  | .dict fields =>
    if Json.has fields "role" then
      match parseVtAlert w.py body w.maxLots with
      | .ok vt =>
        if vt.role = .ltf ∧ vt.trigger = some true then
          if Json.has w.aliases vt.symbol then
            ((normaliseTicker w.py (Json.get w.aliases vt.symbol)).toOption).map
              fun symbol => .bridge { vt with symbol := symbol }
          else some (.bridge vt)
        else none
      | .error _ => none
    else (((parseAlert w.py body w.maxLots).bind (renameSymbol w.py w.aliases)).toOption).map .alert
  | _ => none

/-- The calls of a job. -/
def calls (snapshot : Option VTSnapshot) : Job → Calls Request Outcome Verdict
  | .alert a => Webhook.act w.master w.maxOpen a
  | .bridge vt =>
    match checkGate w.py snapshot vt w.allowedTimeframes s.clock with
    | .error reason => .done ⟨422, .rejected, some reason, true⟩
    | .ok () => (place w.maxOpen (vt.signal w.master (vt.lots.getD 0))).bind fun r => .done (placedVerdict r)

/-- The orders of a log that were written. -/
def ordersOf (id : ℕ) (d : Delivery) (log : List (Request × Outcome)) : List Sent :=
  log.filterMap fun x =>
    match x.1 with
    | .order o => if x.2.written then some ⟨id, d.job.fingerprint, d.receivedAt, o, x.2⟩ else none
    | _ => none

def put (i : ℕ) (d : Delivery) (phase : Phase) : Receiver :=
  { s with deliveries := Function.update s.deliveries i (some { d with phase := phase }) }

/-- The receipts have the fingerprint, inside the window. -/
def duplicate (d : Delivery) : Bool :=
  s.receipts.any fun r =>
    r.fingerprint = some d.job.fingerprint && r.counted && d.receivedAt - dedupWindow < r.receivedAt

/-- `accepted_last_minute`. -/
def acceptedLastMinute (d : Delivery) : ℕ :=
  s.receipts.countP fun r => r.counted && d.receivedAt - minute < r.receivedAt

/-- The next statement of a delivery. -/
def runDelivery (i : ℕ) (d : Delivery) : Option Receiver :=
  match d.phase with
  | .waiting => if s.lock = none then some ({ s with lock := some i }.put i d .locked) else none
  | .locked =>
    if s.duplicate d then some ({ s with nextId := s.nextId + 1 }.put i d (.refusing s.nextId .duplicate))
    else some (s.put i d .unique)
  | .unique =>
    if w.maxPerMinute ≤ s.acceptedLastMinute d then
      some ({ s with nextId := s.nextId + 1 }.put i d (.refusing s.nextId .rejected))
    else some (s.put i d .admitted)
  | .admitted => some ({ s with nextId := s.nextId + 1 }.put i d (.inserted s.nextId))
  | .inserted id =>
    some ({ s with
      receipts := ⟨id, d.receivedAt, .accepted, some d.job.fingerprint⟩ :: s.receipts
      lock := none }.put i d (.acting id))
  | .refusing id outcome =>
    some ({ s with receipts := ⟨id, d.receivedAt, outcome, none⟩ :: s.receipts, lock := none }.put i d .done)
  | .acting _ => none
  | .judged id v =>
    some ({ s with receipts := s.receipts.map (Receipt.finishAt id v) }.put i d .done)
  | .done => none

/-- One action; `none` where it cannot happen. -/
def fire : ReceiverAction → Receiver → Option Receiver
  | .receive i body, s =>
    match s.deliveries i, read w body with
    | none, some job =>
      some { s with deliveries := Function.update s.deliveries i (some ⟨job, s.clock, .waiting⟩) }
    | _, _ => none
  | .run i, s => (s.deliveries i).bind (s.runDelivery w i)
  | .act i snapshot answers, s =>
    match s.deliveries i with
    | some d =>
      match d.phase with
      | .acting id =>
        let x := (s.calls w snapshot d.job).run answers
        some ({ s with sent := s.sent ++ ordersOf id d x.1 }.put i d (.judged id x.2))
      | _ => none
    | none => none
  | .drop i, s =>
    some { s with
      lock := if s.lock = some i then none else s.lock
      deliveries := Function.update s.deliveries i none }
  | .record outcome, s =>
    some { s with
      receipts := ⟨s.nextId, s.clock, outcome, none⟩ :: s.receipts
      nextId := s.nextId + 1 }
  | .tick now, s => if s.clock ≤ now then some { s with clock := now } else none

/-- Nothing has been received. -/
def init : Receiver := ⟨[], 0, none, fun _ => none, 0, []⟩

variable {w}

/-- A job is the alert or the bridge signal of the body, perhaps under another ticker. -/
theorem read_cases {body : Json} {job : Job} (h : read w body = some job) : ∃ fields, body = .dict fields ∧
    ((∃ a, parseAlert w.py body w.maxLots = .ok a ∧ (job = .alert a ∨
        ∃ raw symbol, normaliseTicker w.py raw = .ok symbol ∧ job = .alert { a with symbol := symbol })) ∨
      ∃ vt, parseVtAlert w.py body w.maxLots = .ok vt ∧ vt.role = .ltf ∧ (job = .bridge vt ∨
        ∃ raw symbol, normaliseTicker w.py raw = .ok symbol ∧ job = .bridge { vt with symbol := symbol })) := by
  unfold read at h
  split at h
  · next fields =>
    refine ⟨fields, rfl, ?_⟩
    split_ifs at h
    · split at h
      · next vt hvt =>
        split_ifs at h with hltf
        · obtain ⟨symbol, hsymbol, rfl⟩ := Option.map_eq_some_iff.1 h
          exact .inr ⟨vt, hvt, hltf.1, .inr ⟨_, symbol, ok_of_toOption hsymbol, rfl⟩⟩
        · exact .inr ⟨vt, hvt, hltf.1, .inl (Option.some.inj h).symm⟩
      · cases h
    · obtain ⟨a, ha, rfl⟩ := Option.map_eq_some_iff.1 h
      obtain ⟨a₀, ha₀, hrename⟩ := bind_ok (ok_of_toOption ha)
      rcases renameSymbol_parts hrename with rfl | ⟨symbol, hsymbol, rfl⟩
      · exact .inl ⟨a, ha₀, .inl rfl⟩
      · exact .inl ⟨a₀, ha₀, .inr ⟨_, symbol, hsymbol, rfl⟩⟩
  · cases h

end Receiver

end Webhook
