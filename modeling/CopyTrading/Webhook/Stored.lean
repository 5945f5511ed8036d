import CopyTrading.Webhook.Receiver
import CopyTrading.Webhook.Redact

/-!
# Webhook.Stored — what a delivery writes (`_handle` after the secret, `_insert`, `_finish`, `_record`, `_audit`)

Once the secret is right every delivery leaves a receipt, and most leave an event.  The body goes into the receipt
through `_redact`.  The reason, the alert's id and the event's fields do not: a refusal quotes the field that it
refuses, and the id is kept as it came.
-/

namespace Webhook

open List Option

/-! ### Rows -/

/-- A sha256 in hexadecimal. -/
structure Digest where
  text : String
  hex : ∀ c ∈ text.toList, c.isDigit = true ∨ c ∈ ['a', 'b', 'c', 'd', 'e', 'f']

def ReceiptOutcome.text : ReceiptOutcome → String
  | .accepted => "accepted"
  | .duplicate => "duplicate"
  | .unknown => "unknown"
  | .rejected => "rejected"
  | .failed => "failed"
  | .nothingToClose => "nothing_to_close"
  | .nothingToCancel => "nothing_to_cancel"

/-- The severity of `_audit` and `_vt_audit`. -/
def ReceiptOutcome.severity : ReceiptOutcome → String
  | .accepted => "info"
  | .duplicate => "info"
  | .unknown => "error"
  | _ => "warning"

def AlertAction.text : AlertAction → String
  | .buy => "buy"
  | .sell => "sell"
  | .close => "close"
  | .cancel => "cancel"

def Role.text : Role → String
  | .htf => "htf"
  | .ltf => "ltf"

/-- What the receipts show of an alert of either kind. -/
structure Line where
  action : String
  symbol : String
  lots : Option ℚ
  alertId : String

def Alert.line (a : Alert) : Line := ⟨a.action.text, a.symbol, a.lots, a.alertId⟩

def VTAlert.line (vt : VTAlert) : Line := ⟨vt.role.text, vt.symbol, vt.lots, toString vt.barMs⟩

/-- The columns of `webhook_receipts`, times and ids left out. -/
structure Columns where
  outcome : ReceiptOutcome
  reason : Option String
  line : Option Line
  fingerprint : Option Digest
  sourceIp : String
  bodyRedacted : Json

/-- A statement that writes to `webhook_receipts` or `events`. -/
inductive Stored where
  | insert (row : Columns)
  | finish (outcome : ReceiptOutcome) (reason : Option String)
  | event (severity : String) (payload : List (String × Json))

def Json.ofText : Option String → Json
  | none => .null
  | some s => .str s

def Json.ofNumber : Option ℚ → Json
  | none => .null
  | some x => .num (.finite x)

/-- The values that are written. -/
def Stored.values : Stored → List Json
  | .insert row =>
    [.str row.outcome.text, .ofText row.reason, .ofText (row.line.map Line.action),
      .ofText (row.line.map Line.symbol),
      .ofNumber (row.line.bind Line.lots), .ofText (row.fingerprint.map Digest.text),
        .ofText (row.line.map Line.alertId),
      .str row.sourceIp, row.bodyRedacted]
  | .finish outcome reason => [.str outcome.text, .ofText reason]
  | .event severity payload => [.str severity, .dict payload]

/-! ### The handler -/

/-- What a delivery finds: the gates, the receipts of the last minute, the stored snapshot, the copier's
answers. -/
structure Situation where
  enabled : Bool
  /-- `copying_enabled` and `dry_run`. -/
  org : Option (Bool × Bool)
  hasMaster : Bool
  duplicateOf : Option ℕ
  acceptedLastMinute : ℕ
  snapshot : Option VTSnapshot
  now : ℚ
  answers : ℕ → Outcome
  /-- The body of the answer to the order. -/
  summary : Json
  sourceIp : String
  receiptId : ℕ
  digest : Fingerprint → Digest

section Handler

variable (w : Workspace) (e : Situation)

/-- `_insert`. -/
def insertRow (body : Json) (line : Option Line) (outcome : ReceiptOutcome) (reason : Option String)
    (fp : Option Digest) : Stored :=
  .insert ⟨outcome, reason, line, fp, e.sourceIp, body⟩

/-- The fields of an event that are there for an alert that was read. -/
def lineFields : Option Line → List (String × Json)
  | none => []
  | some l => [("symbol", .str l.symbol), ("lots", .ofNumber l.lots)]

/-- `_record`. -/
def record (body : Json) (line : Option Line) (status : ℕ) (reason : String) : List Stored :=
  [insertRow e body line .rejected (some reason) none,
    .event (if status = 401 ∨ status = 403 ∨ status = 429 then "warning" else "info")
      (("action", .str ((line.map Line.action).getD "webhook_alert")) :: ("receipt_id", .int e.receiptId) ::
        ("outcome", .str "rejected") :: ("reason", .str reason) :: ("source_ip", .str e.sourceIp) ::
          lineFields line)]

/-- The field `key`, unless there is nothing to say. -/
def fieldIf (key : String) (v : Json) : List (String × Json) := if v.truthy then [(key, v)] else []

/-- `_record_vt_ok`. -/
def recordVtOk (body : Json) (line : Line) (reason : Option String) : List Stored :=
  [insertRow e body (some line) .accepted reason none,
    .event "info"
      (("action", .str "webhook_alert") :: ("receipt_id", .int e.receiptId) :: ("outcome", .str "accepted") ::
        ("role", .str line.action) :: ("symbol", .str line.symbol) :: fieldIf "reason" (.ofText reason))]

/-- `str(exc)`: the reason without what `_finish` writes before it. -/
def excText (lead : String) (v : Verdict) : String := String.ofList ((v.reason.getD "").toList.drop lead.length)

/-- The `detail` of the event of a verdict; `placed` is that of a success. -/
def detailOf (placed : Json) (v : Verdict) : Json :=
  match v.outcome with
  | .accepted => placed
  | .rejected => .dict [("reason", .str (v.reason.getD ""))]
  | .failed => .dict [("reason", .str (excText "copier unreachable: " v))]
  | .unknown => .dict [("reason", .str (excText "copier did not confirm: " v))]
  | _ => .null

/-- `_finish`, and `_audit` or `_vt_audit`. -/
def conclude (alert placed : Json) (v : Verdict) : List Stored :=
  [.finish v.outcome v.reason,
    .event v.outcome.severity
      (("action", .str "webhook_alert") :: ("receipt_id", .int e.receiptId) :: ("outcome", .str v.outcome.text) ::
        ("alert", alert) :: ("source_ip", .str e.sourceIp) :: fieldIf "detail" (detailOf placed v))]

/-- The transaction, and what follows it. -/
def admission (body : Json) (line : Line) (fp : Fingerprint) (alert placed : Json) (v : Verdict) : List Stored :=
  match e.duplicateOf with
  | some id =>
    [insertRow e body (some line) .duplicate (some ("same alert accepted " ++ toString id ++ " seconds ago")) none]
  | none =>
    if w.maxPerMinute ≤ e.acceptedLastMinute then
      record e body (some line) 429 ("more than " ++ toString w.maxPerMinute ++
        " alerts accepted in a minute; raise the limit in Automation if this is intended")
    else insertRow e body (some line) .accepted none (some (e.digest fp)) :: conclude e alert placed v

/-- The gates of step 6. -/
def gates : Except (ℕ × String) Unit :=
  if e.enabled = false then .error (403, "automation is switched off for this workspace")
  else
    match e.org with
    | none => .error (403, "copying is stopped for this workspace")
    | some (copying, dryRun) =>
      if copying = false then .error (403, "copying is stopped for this workspace")
      else if dryRun then .error (422, "this workspace is in dry-run; automation is disabled until it is off")
      else if e.hasMaster = false then .error (422, "this workspace has no master account")
      else .ok ()

/-- The `alert` of `_audit`. -/
def Alert.audited (a : Alert) : Json :=
  .dict [("action", .str a.action.text), ("symbol", .str a.symbol), ("lots", .ofNumber a.lots),
    ("id", .str a.alertId)]

/-- The `alert` of `_vt_audit`. -/
def VTAlert.audited (vt : VTAlert) : Json :=
  .dict [("role", .str vt.role.text), ("symbol", .str vt.symbol), ("tf", .str vt.tf), ("bias", .str vt.bias.name),
    ("entry", .ofNumber (some vt.entry)), ("stop", .ofNumber (some vt.stop)),
      ("target", .ofNumber (some vt.target)),
    ("lots", .ofNumber vt.lots), ("bar_ms", .int vt.barMs)]

/-- `_handle` from step 7 on for an alert with an action. -/
def storedAlert (fields : List (String × Json)) : List Stored :=
  let body := redact (.dict fields)
  match parseAlert w.py (.dict fields) w.maxLots with
  | .error message => record e body none 422 message
  | .ok a =>
    match renameSymbol w.py w.aliases a with
    -- not caught: the request fails and nothing is recorded
    | .error _ => []
    | .ok a =>
      admission w e body a.line (Job.fingerprint (.alert a)) a.audited
        (if a.action = .buy ∨ a.action = .sell then e.summary else .null)
        ((act w.master w.maxOpen a).run e.answers).2

/-- The verdict on a triggered entry. -/
def bridgeVerdict (vt : VTAlert) : Verdict :=
  match checkGate w.py e.snapshot vt w.allowedTimeframes e.now with
  | .error reason => ⟨422, .rejected, some reason, true⟩
  | .ok () => (((place w.maxOpen (vt.signal w.master (vt.lots.getD 0))).bind fun r =>
      .done (placedVerdict r)).run e.answers).2

/-- `_handle_vt_bridge` from the rename on, and `_handle_vt_ltf`. -/
def storedVt (body : Json) (vt : VTAlert) : List Stored :=
  match vt.role with
  | .htf => recordVtOk e body vt.line (if vt.valid then none else some "htf setup not valid, not stored")
  | .ltf =>
    if vt.trigger = some true then
      admission w e body vt.line (Job.fingerprint (.bridge vt)) vt.audited e.summary (bridgeVerdict w e vt)
    else recordVtOk e body vt.line (some "ltf informational (trigger=false), no action")

/-- `_handle_vt_bridge`. -/
def storedBridge (fields : List (String × Json)) : List Stored :=
  let body := redact (.dict fields)
  match parseVtAlert w.py (.dict fields) w.maxLots with
  | .error message => record e body none 422 message
  | .ok vt =>
    if Json.has w.aliases vt.symbol then
      match normaliseTicker w.py (Json.get w.aliases vt.symbol) with
      | .error _ => []
      | .ok symbol => storedVt w e body { vt with symbol := symbol }
    else storedVt w e body vt

/-- Everything that an authenticated delivery writes to `webhook_receipts` and `events`. -/
def stored (fields : List (String × Json)) : List Stored :=
  match gates e with
  | .error (status, reason) => record e (redact (.dict fields)) none status reason
  | .ok () => if Json.has fields "role" then storedBridge w e fields else storedAlert w e fields

end Handler

/-! ### Refusals -/

open Calls Secret

-- the texts of the messages are evaluated
set_option maxRecDepth 8000

section Quotes

variable (py : Python) (maxLots : Option PyFloat) (fields : List (String × Json))

/-- What a check quotes of the alert when it refuses. -/
def refused (passes : Bool) (quote : String) : Option String := if passes then none else some quote

/-- A text that `_number` refuses unread. -/
def Json.long : Json → Bool
  | .str t => 32 < t.length
  | _ => false

/-- What the refusal of a ticker quotes. -/
def tickerQuote : Json → String
  | .str t => py.repr (.str t)
  | _ => ""

/-- A number that is missing or a long text is not quoted. -/
def numberQuote (raw : Json) : String := if raw.blank || raw.long then "" else py.repr raw

/-- Above the cap, the number is written and not quoted. -/
def lotsQuote : String :=
  match number py (Json.get fields "lots") "lots" with
  | .ok (.finite x) => if 0 < x then "" else numberQuote py (Json.get fields "lots")
  | _ => numberQuote py (Json.get fields "lots")

/-- The id as it is kept. -/
def idText : List Char :=
  let raw := Json.get fields "id"
  match raw with
  | .null => []
  | _ => (strip (py.str raw).toList).take 128

/-- What the refusal of an id quotes. -/
def idQuote : String := if idText py fields = [] then "" else py.repr (.str (String.ofList (idText py fields)))

/-- `price` refuses the field. -/
def priceQuote (key : String) : Option String :=
  refused (price py fields key).isOk (numberQuote py (Json.get fields key))

/-- `finite_positive` refuses the field. -/
def positiveQuote (key : String) : Option String :=
  refused (finitePositive py fields key).isOk (numberQuote py (Json.get fields key))

def boolQuote (key : String) : Option String :=
  refused (boolField py fields key).isOk (py.repr (Json.get fields key))

/-- What the refusal of `parse_alert` quotes: the first field that fails.  A close or a cancel is read up to its
id. -/
def alertQuote : Option String :=
  let action := actionOf (if Json.has fields "action" then word py (Json.get fields "action") else "")
  let orderType := Json.get fields "order_type"
  refused action.isSome (py.repr (Json.get fields "action")) <|>
  refused (normaliseTicker py (tickerOf fields)).isOk (tickerQuote py (tickerOf fields)) <|>
  refused (readId py fields).isOk (idQuote py fields) <|>
  if action = some .close ∨ action = some .cancel then none
  else
    refused (readLots py fields maxLots "").isOk (lotsQuote py fields) <|>
    priceQuote py fields "stop_loss" <|> priceQuote py fields "take_profit" <|>
    refused (orderTypeOf (if orderType.truthy then word py orderType else "market")).isSome (py.repr orderType) <|>
    priceQuote py fields "price"

/-- What the refusal of `parse_vt_alert` quotes. -/
def vtQuote : Option String :=
  refused (roleOf (textOf py fields "role")).isSome (py.repr (Json.get fields "role")) <|>
  refused (normaliseTicker py (tickerOf fields)).isOk (tickerQuote py (tickerOf fields)) <|>
  refused (textOf py fields "tf" ≠ "") "" <|>
  refused (biasOf (textOf py fields "bias")).isSome (py.repr (Json.get fields "bias")) <|>
  positiveQuote py fields "entry" <|> positiveQuote py fields "stop" <|> positiveQuote py fields "target" <|>
  positiveQuote py fields "price" <|> boolQuote py fields "valid" <|>
  refused (toInt py (Json.get fields "bar_ms")).isSome "" <|>
  if roleOf (textOf py fields "role") = some .htf then none
  else boolQuote py fields "trigger" <|> refused (readLots py fields maxLots "").isOk (lotsQuote py fields)

end Quotes

section Refusals

variable {py : Python} {s : Secret} {fields : List (String × Json)} {α β : Type}
  {message key quote : String} {v : Json} {maxLots : Option PyFloat} {vt : VTAlert} {q r : Option String}

/-- The refusal shows the secret iff its quote does. -/
abbrev Says (s : Secret) (q : Option String) (x : Except String α) : Prop :=
  Failing (fun m => s.shownIn m = q.any s.shownIn) x

/-- Two checks with one quote. -/
theorem Says.seq {x : Except String α} {f : α → Except String β} (hx : Says s q x)
    (hf : ∀ a, x = .ok a → Says s q (f a)) : Says s q (x >>= f) := by
  cases x with
  | error m => exact hx
  | ok a => exact hf a rfl

/-- A check, and the rest of the reading. -/
theorem Says.bind {x : Except String α} {f : α → Except String β} {passes : Bool} (hx : Says s (some quote) x)
    (hf : ∀ a, x = .ok a → Says s r (f a)) (hp : passes = x.isOk := by rfl) :
    Says s (refused passes quote <|> r) (x >>= f) := by
  subst hp
  cases x with
  | error m => exact hx
  | ok a => exact hf a rfl

/-- The last check with a quote. -/
theorem Says.last {x : Except String α} {f : α → Except String β} {passes : Bool} (hx : Says s (some quote) x)
    (hf : ∀ a, Says s none (f a)) (hp : passes = x.isOk := by rfl) : Says s (refused passes quote) (x >>= f) := by
  subst hp
  cases x with
  | error m => exact hx
  | ok a => exact hf a

section

variable (h : s.shownIn message = q.any s.shownIn)
include h

theorem says_refuseIf {c : Prop} [Decidable c] : Says s q (refuseIf c message) := by
  unfold refuseIf
  split_ifs
  · exact h
  · trivial

theorem says_orRefuse {x : Option α} : Says s q (orRefuse x message) := by
  cases x with
  | none => exact h
  | some a => trivial

theorem says_positive {x : PyFloat} : Says s q (positive x message) := by
  unfold positive
  split
  · split_ifs
    · trivial
    · exact h
  · exact h

end

theorem isOk_orRefuse {x : Option α} : x.isSome = (orRefuse x message).isOk := by
  cases x <;> rfl

theorem orRefuse_ok {x : Option α} {a : α} (h : orRefuse x message = .ok a) : x = some a := by
  cases x with
  | none => cases h
  | some b => exact congrArg some (Except.ok.inj h)

/-- A text without a quote. -/
theorem says_nothing (h : s.shownIn message = false) : s.shownIn message = (some "").any s.shownIn :=
  h.trans (shownIn_literal rfl : s.shownIn "" = false).symm

theorem says_normaliseTicker : Says s (some (tickerQuote py v)) (normaliseTicker py v) := by
  cases v with
  | str raw =>
    unfold normaliseTicker
    dsimp only
    generalize stripSuffixes _ = ticker
    by_cases hticker : allowed ticker = true
    · rw [if_pos hticker]
      trivial
    · rw [if_neg hticker]
      exact (shown_trail rfl).trans (shown_lead rfl)
  | _ =>
    show s.shownIn _ = (some "").any s.shownIn
    exact says_nothing (shownIn_literal rfl)

theorem numberQuote_eq (hblank : v.blank = false) (hlong : v.long = false) : numberQuote py v = py.repr v := by
  rw [numberQuote, hblank, hlong, Bool.or_false, if_neg Bool.false_ne_true]

theorem numberQuote_blank (h : v.blank = true) : numberQuote py v = "" := by
  rw [numberQuote, h, Bool.true_or, if_pos rfl]

/-- A number that was read is quoted, where it is refused after all. -/
theorem numberQuote_of_ok {x : PyFloat} (hblank : v.blank = false) (h : number py v key = .ok x) :
    numberQuote py v = py.repr v := by
  refine numberQuote_eq hblank ?_
  cases v with
  | str t =>
    simp only [number] at h
    split_ifs at h with ht
    simpa [Json.long] using ht
  | _ => rfl

theorem says_number (hblank : v.blank = false) (hkey : plain key.toList = true) :
    Says s (some (numberQuote py v)) (number py v key) := by
  have hrefused : s.shownIn (key ++ " must be a number, got " ++ py.repr v) = s.shownIn (py.repr v) :=
    shown_named rfl rfl (shownIn_plain hkey)
  have hfloat : Says s (some (py.repr v)) (((toFloat py v).map Except.ok).getD
      (.error (key ++ " must be a number, got " ++ py.repr v))) := by
    cases toFloat py v with
    | none => exact hrefused
    | some x => trivial
  cases v with
  | null => cases hblank
  | bool b => exact hrefused
  | str t =>
    unfold number numberQuote
    dsimp only
    rw [hblank, Bool.false_or]
    by_cases ht : 32 < t.length
    · rw [if_pos ht, if_pos (by simpa [Json.long] using ht)]
      exact says_nothing ((shown_trail rfl).trans (shownIn_plain hkey))
    · rw [if_neg ht, if_neg (by simpa [Json.long] using ht)]
      exact hfloat
  | int n | num x | list items | dict fields =>
    rw [numberQuote_eq rfl rfl]
    simp only [number]
    generalize toFloat py _ = x at hfloat ⊢
    exact hfloat

section

variable (hkey : plain key.toList = true)
include hkey

/-- A number that is read and not positive is quoted. -/
theorem shown_positive {x : PyFloat} (hblank : v.blank = false) (h : number py v key = .ok x) :
    s.shownIn (key ++ " must be a positive price, got " ++ py.repr v) = (some (numberQuote py v)).any
      s.shownIn := by
  rw [numberQuote_of_ok hblank h]
  exact shown_named rfl rfl (shownIn_plain hkey)

theorem says_price : Says s (some (numberQuote py (Json.get fields key))) (price py fields key) := by
  unfold price
  dsimp only
  by_cases hblank : (Json.get fields key).blank = true
  · rw [if_pos hblank]
    trivial
  · rw [if_neg hblank]
    rw [Bool.not_eq_true] at hblank
    refine (says_number hblank hkey).seq fun value hvalue => ?_
    exact Says.seq (says_positive (shown_positive hkey hblank hvalue)) fun _ _ => trivial

theorem says_finitePositive : Says s (some (numberQuote py (Json.get fields key)))
    (finitePositive py fields key) := by
  have hk := shownIn_plain (s := s) hkey
  unfold finitePositive
  dsimp only
  by_cases hblank : (Json.get fields key).blank = true
  · rw [if_pos hblank, numberQuote_blank hblank]
    exact says_nothing (hidden_trail rfl (hidden_between rfl rfl hk hk))
  · rw [if_neg hblank]
    rw [Bool.not_eq_true] at hblank
    exact (says_number hblank hkey).seq fun value hvalue => says_positive (shown_positive hkey hblank hvalue)

theorem says_boolField : Says s (some (py.repr (Json.get fields key))) (boolField py fields key) := by
  unfold boolField
  split
  · trivial
  · exact shown_named rfl rfl (shownIn_plain hkey)

end

/-- Without the size the reading stops, whatever is said about it. -/
theorem isOk_readLots (missing : String) :
    (readLots py fields maxLots "").isOk = (readLots py fields maxLots missing).isOk := by
  unfold readLots refuseIf
  dsimp only
  by_cases hblank : (Json.get fields "lots").blank = true
  · rw [if_pos hblank, if_pos hblank]
    rfl
  · rw [if_neg hblank, if_neg hblank]

theorem says_readLots (hgeneral : ∀ x, s.shownIn (py.general x) = false) {missing : String}
    (hmissing : plain missing.toList = true) :
    Says s (some (lotsQuote py fields)) (readLots py fields maxLots missing) := by
  unfold readLots lotsQuote
  dsimp only
  generalize Json.get fields "lots" = raw
  by_cases hblank : raw.blank = true
  · have hquote : numberQuote py raw = "" := numberQuote_blank hblank
    rw [refuseIf, if_pos hblank, hquote]
    have hnone : s.shownIn missing = (some "").any s.shownIn := says_nothing (shownIn_plain hmissing)
    split
    · split_ifs <;> exact hnone
    · exact hnone
  rw [refuseIf, if_neg hblank]
  rw [Bool.not_eq_true] at hblank
  have hnumber : Says s (some (numberQuote py raw)) (number py raw "lots") := says_number hblank rfl
  show Says s _ (number py raw "lots" >>= _)
  cases hvalue : number py raw "lots" with
  | error m =>
    rw [hvalue] at hnumber
    exact hnumber
  | ok value =>
    have hrefused : s.shownIn ("lots must be greater than 0, got " ++ py.repr raw) =
        s.shownIn (numberQuote py raw) := by
      rw [numberQuote_of_ok hblank hvalue]
      exact shown_lead rfl
    show Says s _ (positive value _ >>= _)
    cases value with
    | nan | inf b => exact hrefused
    | finite x =>
      dsimp only [positive]
      by_cases hx : 0 < x
      · rw [if_pos hx, if_pos hx]
        show Says s (some "") (orRefuse (lotCap maxLots) _ >>= _)
        refine Says.seq (says_orRefuse (says_nothing (shownIn_literal rfl))) fun cap _ => ?_
        refine Says.seq (says_refuseIf (says_nothing ?_)) fun _ _ => trivial
        exact hidden_trail rfl (hidden_between rfl rfl (hidden_lead rfl (hgeneral x)) (hgeneral cap))
      · rw [if_neg hx, if_neg hx]
        exact hrefused

theorem says_readId : Says s (some (idQuote py fields)) (readId py fields) := by
  unfold readId idQuote
  show Says s _ (if idText py fields = [] then _ else if unexpanded (idText py fields) = true then _ else _)
  by_cases hid : idText py fields = []
  · rw [if_pos hid, if_pos hid]
    exact says_nothing (hidden_between rfl rfl (shownIn_literal rfl) (shownIn_literal rfl))
  · rw [if_neg hid, if_neg hid]
    split_ifs
    · refine (shown_between rfl rfl).trans ?_
      rw [shown_lead rfl, shownIn_literal rfl, Bool.or_false]
      rfl
    · trivial

/-- A ticker has no small letter. -/
theorem shownIn_ticker {symbol : String} (h : normaliseTicker py v = .ok symbol) : s.shownIn symbol = false := by
  refine shownIn_of_no_t fun ht => ?_
  rcases mem_ticker h ht with h | h | h <;> exact absurd h (by decide)

theorem says_parseAlert (hgeneral : ∀ x, s.shownIn (py.general x) = false) (maxLots : Option PyFloat) :
    Says s (alertQuote py maxLots fields) (parseAlert py (.dict fields) maxLots) := by
  unfold alertQuote
  refine (says_orRefuse (shown_lead rfl)).bind (fun action haction => ?_) isOk_orRefuse
  rw [orRefuse_ok haction]
  refine says_normaliseTicker.bind fun symbol _ => ?_
  refine says_readId.bind fun alertId _ => ?_
  simp only [Option.some.injEq]
  by_cases hdone : action = .close ∨ action = .cancel
  · rw [if_pos hdone, if_pos hdone]
    trivial
  · rw [if_neg hdone, if_neg hdone]
    refine (says_readLots hgeneral rfl).bind (fun lots _ => ?_) (isOk_readLots _)
    refine (says_price rfl).bind fun stopLoss _ => ?_
    refine (says_price rfl).bind fun takeProfit _ => ?_
    refine (says_orRefuse (shown_lead rfl)).bind (fun orderType _ => ?_) isOk_orRefuse
    refine (says_price rfl).last fun level => ?_
    refine Says.seq (says_refuseIf (hidden_trail rfl (hidden_lead rfl ?_))) fun _ _ => trivial
    split_ifs <;> exact shownIn_literal rfl

theorem says_parseVtAlert (hgeneral : ∀ x, s.shownIn (py.general x) = false) (maxLots : Option PyFloat) :
    Says s (vtQuote py maxLots fields) (parseVtAlert py (.dict fields) maxLots) := by
  unfold vtQuote
  refine (says_orRefuse (shown_lead rfl)).bind (fun role hrole => ?_) isOk_orRefuse
  rw [orRefuse_ok hrole]
  refine says_normaliseTicker.bind fun symbol _ => ?_
  refine (says_refuseIf (says_nothing (shownIn_literal rfl))).bind (fun _ _ => ?_) ?_
  · refine (says_orRefuse (shown_lead rfl)).bind (fun bias _ => ?_) isOk_orRefuse
    refine (says_finitePositive rfl).bind fun entry _ => ?_
    refine (says_finitePositive rfl).bind fun stop _ => ?_
    refine (says_finitePositive rfl).bind fun target _ => ?_
    refine (says_finitePositive rfl).bind fun price _ => ?_
    refine (says_boolField rfl).bind fun valid _ => ?_
    refine (says_orRefuse (says_nothing (shownIn_literal rfl))).bind (fun barMs _ => ?_) isOk_orRefuse
    simp only [Option.some.injEq]
    split_ifs
    · trivial
    · refine (says_boolField rfl).bind fun trigger _ => ?_
      exact (says_readLots hgeneral rfl).last (fun lots => trivial) (isOk_readLots _)
  · unfold refuseIf
    split_ifs <;> simp_all [Except.isOk, Except.toBool]

/-! ### What is read -/

theorem renameSymbol_hides {aliases : List (String × Json)} {a a' : Alert} (h : renameSymbol py aliases a = .ok a')
    (ha : s.shownIn a.symbol = false) : s.shownIn a'.symbol = false ∧ a'.alertId = a.alertId := by
  rcases renameSymbol_parts h with rfl | ⟨symbol, hsymbol, rfl⟩
  · exact ⟨ha, rfl⟩
  · exact ⟨shownIn_ticker hsymbol, rfl⟩

theorem says_checkGate (hgeneral : ∀ x, s.shownIn (py.general x) = false)
    (hvt : s.shownIn vt.symbol = false ∧ s.shownIn vt.tf = false) (htf : Option VTSnapshot)
    (timeframes : List String) (now : ℚ) : Says s none (checkGate py htf vt timeframes now) := by
  unfold checkGate
  by_cases htimeframe : vt.tf ∉ timeframes
  · rw [if_pos htimeframe]
    exact hidden_trail rfl (hidden_lead rfl hvt.2)
  rw [if_neg htimeframe]
  by_cases hvalid : vt.valid = false
  · rw [if_pos hvalid]
    exact shownIn_literal rfl
  rw [if_neg hvalid]
  cases htf with
  | none => exact hidden_trail rfl (hidden_lead rfl hvt.1)
  | some htf =>
    dsimp only
    generalize staleMultiplier * (py.int htf.tf).getD 0 * 60 = maxAge
    generalize tolPct * (max htf.stop htf.target - min htf.stop htf.target) = tol
    split_ifs
    · -- the seconds stand beside letters, none of them a `t`
      have hage : s.shownIn (toString (Int.tdiv (now - htf.receivedAt).num (now - htf.receivedAt).den) ++
          ("s old (max " ++ (toString maxAge ++ "s)"))) = false := by
        refine shownIn_of_no_t ?_
        simp only [String.toList_append, mem_append, not_or]
        exact ⟨t_not_in_int, by decide, t_not_in_int, by decide⟩
      rw [String.append_assoc, String.append_assoc, String.append_assoc]
      exact hidden_between rfl rfl (hidden_lead rfl hvt.1) hage
    · have hbias : ∀ b : Bias, s.shownIn b.name = false := by
        intro b
        cases b <;> exact shownIn_literal rfl
      exact hidden_trail rfl (hidden_between rfl rfl (hidden_lead rfl (hbias _)) (hbias _))
    · trivial
    · exact hidden_trail rfl
        (hidden_between rfl rfl
        (hidden_between rfl rfl (hidden_between rfl rfl (hidden_lead rfl (hgeneral vt.entry)) (hgeneral _))
        (hgeneral _)) (hgeneral tol))

end Refusals

/-! ### The copier's part -/

section Answers

variable {s : Secret} {o : Outcome} {maxOpen : ℕ}

/-- The texts of an answer do not show the secret. -/
def Outcome.hides (s : Secret) : Outcome → Prop
  | .late => True
  | .unreachable text => s.shownIn text = false
  | .broken text _ => s.shownIn text = false
  | .answered _ reply _ => s.shownIn reply.detail = false

/-- The text of a failure. -/
def Failure.text : Failure → String
  | .rejected _ reason => reason
  | .down text => text
  | .unknown text => text

/-- The failure does not show the secret. -/
abbrev Failure.Hides (s : Secret) (f : Failure) : Prop := s.shownIn f.text = false

theorem copier_hides (h : o.hides s) : Failing (Failure.Hides s) (copier o) := by
  cases o with
  | late => exact shownIn_literal rfl
  | unreachable text | broken text took => exact h
  | answered status reply took =>
    unfold copier
    dsimp only
    split_ifs
    · exact hidden_lead rfl (shownIn_repr status)
    · exact h
    · exact h
    · trivial

theorem resynced_hides (h : o.hides s) : Failing (Failure.Hides s) (resynced o) := by
  have hc := copier_hides h
  unfold resynced
  split
  · trivial
  · next f hf =>
    rw [hf] at hc
    exact hc
  · trivial

/-- What `_finish` writes does not show the secret, nor does the exception behind it. -/
def Verdict.Hides (s : Secret) (v : Verdict) : Prop := s.shownIn (v.reason.getD "") = false

theorem Failure.hides_verdict {f : Failure} (h : f.Hides s) : f.verdict.Hides s := by
  cases f with
  | rejected status reason => exact h
  | down text | unknown text => exact hidden_lead rfl h

theorem yields_place {signal : Signal} (h : s.shownIn signal.order.symbol = false) :
    ((place maxOpen signal).bind fun r => .done (placedVerdict r)).Yields (Outcome.hides s) (Verdict.Hides s) := by
  have hplace : (place maxOpen signal).Yields (Outcome.hides s) (Failing (Failure.Hides s)) := by
    refine (yields_ask fun r hr => copier_hides hr).attempt fun reply => ?_
    split_ifs
    · exact hidden_trail rfl (hidden_lead rfl h)
    · exact hidden_trail rfl (hidden_lead rfl (shownIn_repr maxOpen))
    · exact (yields_ask fun r hr => copier_hides hr).attempt fun _ => trivial
  refine hplace.bind fun r hr => ?_
  cases r with
  | error f => exact Failure.hides_verdict hr
  | ok _ => exact shownIn_literal rfl

theorem hides_doneVerdict {α : Type} {nothing : ReceiptOutcome} {reason : String}
    (hreason : s.shownIn reason = false)
    {r : Except Failure (List α)} (hr : Failing (Failure.Hides s) r) : (doneVerdict nothing reason r).Hides s := by
  match r, hr with
  | .error f, hr => exact Failure.hides_verdict hr
  | .ok [], _ => exact hreason
  | .ok (_ :: _), _ => exact shownIn_literal rfl

theorem yields_close (master : ℕ) (symbol : String) :
    (close master symbol).Yields (Outcome.hides s) (Failing (Failure.Hides s)) := by
  refine Yields.attempt ?_ fun positions => yields_each (fun r hr => copier_hides hr) positions
  refine (yields_ask fun r hr => copier_hides hr).attempt fun reply => ?_
  split
  · refine (yields_ask fun r hr => resynced_hides hr).attempt fun _ => ?_
    exact (yields_ask fun r hr => copier_hides hr).attempt fun _ => trivial
  · trivial

theorem yields_cancel (master : ℕ) (symbol : String) :
    (cancel master symbol).Yields (Outcome.hides s) (Failing (Failure.Hides s)) := by
  refine Yields.attempt ?_ fun orders => yields_each (fun r hr => copier_hides hr) orders
  exact (yields_ask fun r hr => copier_hides hr).attempt fun _ => trivial

theorem yields_act {master : ℕ} {a : Alert} (h : s.shownIn a.symbol = false) :
    (act master maxOpen a).Yields (Outcome.hides s) (Verdict.Hides s) := by
  unfold act
  split
  · exact (yields_close master a.symbol).bind fun r hr => hides_doneVerdict (shownIn_literal rfl) hr
  · exact (yields_cancel master a.symbol).bind fun r hr => hides_doneVerdict (shownIn_literal rfl) hr
  · exact yields_place h
  · exact yields_place h

end Answers

/-! ### The rows -/

section Rows

variable {s : Secret} {w : Workspace} {e : Situation} {body : Json} {fields : List (String × Json)}
  {key : List Char} {line : Option Line} {reason : Option String} {v : Verdict}
  {placed alert : Json} {vt : VTAlert}

/-- Nothing that is written shows the secret. -/
def Stored.Hides (s : Secret) (x : Stored) : Prop := ∀ v ∈ x.values, s.shownBy v = false

/-- What does not come from the alert does not show the secret. -/
structure Situation.Quiet (e : Situation) (s : Secret) : Prop where
  sourceIp : s.shownIn e.sourceIp = false
  answers : ∀ n, (e.answers n).hides s
  summary : s.shownBy e.summary = false

/-- The line shows the secret in its id at most. -/
structure Line.Hides (s : Secret) (l : Line) : Prop where
  action : s.shownIn l.action = false
  symbol : s.shownIn l.symbol = false

theorem shownBy_ofText {o : Option String} : s.shownBy (.ofText o) = false ↔ ∀ t ∈ o, s.shownIn t = false := by
  cases o <;> simp [Json.ofText, shownBy, Json.anyText]

theorem shownBy_ofNumber (o : Option ℚ) : s.shownBy (.ofNumber o) = false := by
  cases o <;> rfl

theorem shownBy_text {t : String} (h : s.shownIn t = false) : s.shownBy (.str t) = false := h

theorem shownBy_literal {l : List Char} (h : plain l = true) : s.shownBy (.str (String.ofList l)) = false :=
  shownBy_text (shownIn_literal h)

/-- A field with a name of the code. -/
theorem hides_cons {v : Json} (hkey : plain key = true) (hv : s.shownBy v = false)
    (hfields : s.shownBy (.dict fields) = false) :
      s.shownBy (.dict ((String.ofList key, v) :: fields)) = false := by
  refine (fieldsAny_eq_false _ _).2 (forall_mem_cons.2 ⟨⟨shownIn_literal hkey, hv⟩, ?_⟩)
  exact (fieldsAny_eq_false _ _).1 hfields

theorem hidden_field {f : String × Json} (h : s.shownBy (.dict fields) = false) (hf : f ∈ fields) :
    s.shownBy f.2 = false := ((fieldsAny_eq_false _ _).1 h f hf).2

theorem hides_fieldIf {v : Json} (hkey : plain key = true) (hv : s.shownBy v = false) :
    s.shownBy (.dict (fieldIf (String.ofList key) v)) = false := by
  unfold fieldIf
  split_ifs
  · exact hides_cons hkey hv rfl
  · rfl

theorem shownIn_outcome (o : ReceiptOutcome) : s.shownIn o.text = false := by
  cases o <;> exact shownIn_literal rfl

theorem shownIn_severity (o : ReceiptOutcome) : s.shownIn o.severity = false := by
  cases o <;> exact shownIn_literal rfl

theorem shownIn_digest (d : Digest) : s.shownIn d.text = false := by
  refine shownIn_of_no_t fun ht => ?_
  rcases d.hex 't' ht with h | h
  · exact absurd h (by decide)
  · exact absurd h (by decide)

/-- The statements show the secret iff the body does, or the alert's text beside it. -/
def Written (s : Secret) (body : Json) (told : Bool) (xs : List Stored) : Prop :=
  xs ≠ [] → ((∀ x ∈ xs, x.Hides s) ↔ s.shownBy body = false ∧ told = false)

theorem hides_insertRow (he : e.Quiet s) (hline : ∀ l ∈ line, l.Hides s) {outcome : ReceiptOutcome}
    {fp : Option Digest} : (insertRow e body line outcome reason fp).Hides s ↔ s.shownBy body = false ∧
      (∀ t ∈ reason, s.shownIn t = false) ∧ ∀ l ∈ line, s.shownIn l.alertId = false := by
  have hcolumn : ∀ f : Line → String,
      s.shownBy (.ofText (line.map f)) = false ↔ ∀ l ∈ line, s.shownIn (f l) = false := by
    intro f
    rw [shownBy_ofText]
    cases line <;> simp
  have hdigest : s.shownBy (.ofText (fp.map Digest.text)) = false := by
    refine shownBy_ofText.2 fun t ht => ?_
    obtain ⟨d, -, rfl⟩ := map_eq_some_iff.1 ht
    exact shownIn_digest d
  rw [← shownBy_ofText, ← hcolumn]
  refine ⟨fun h => ⟨h _ ?_, h _ ?_, h _ ?_⟩, ?_⟩
  · simp [insertRow, Stored.values]
  · simp [insertRow, Stored.values]
  · simp [insertRow, Stored.values]
  rintro ⟨hbody, hreason, hid⟩ v hv
  simp only [insertRow, Stored.values, mem_cons, not_mem_nil, or_false] at hv
  rcases hv with rfl | rfl | rfl | rfl | rfl | rfl | rfl | rfl | rfl
  · exact shownBy_text (shownIn_outcome outcome)
  · exact hreason
  · exact (hcolumn _).2 fun l hl => (hline l hl).action
  · exact (hcolumn _).2 fun l hl => (hline l hl).symbol
  · exact shownBy_ofNumber _
  · exact hdigest
  · exact hid
  · exact shownBy_text he.sourceIp
  · exact hbody

theorem hides_event {severity : String} {payload : List (String × Json)} (hs : s.shownIn severity = false)
    (hp : s.shownBy (.dict payload) = false) : (Stored.event severity payload).Hides s := by
  intro v hv
  rcases mem_pair.1 hv with rfl | rfl
  · exact shownBy_text hs
  · exact hp

theorem written_record (he : e.Quiet s) (hline : ∀ l ∈ line, l.Hides s) {status : ℕ}
    {reason : String} {told : Bool}
    (htold : told = false ↔ s.shownIn reason = false ∧ ∀ l ∈ line, s.shownIn l.alertId = false) :
    Written s body told (record e body line status reason) := by
  intro _
  rw [htold]
  refine ⟨fun h => ?_, fun h x hx => ?_⟩
  · obtain ⟨hbody, hreason, hid⟩ := (hides_insertRow he hline).1 (h _ mem_cons_self)
    exact ⟨hbody, hreason reason rfl, hid⟩
  · obtain ⟨hbody, hreason, hid⟩ := h
    rcases mem_pair.1 hx with rfl | rfl
    · exact (hides_insertRow he hline).2 ⟨hbody, fun t ht => some.inj ht ▸ hreason, hid⟩
    · refine hides_event ?_ ?_
      · split_ifs <;> exact shownIn_literal rfl
      · refine hides_cons rfl ?_ <| hides_cons rfl rfl <| hides_cons rfl (shownBy_literal rfl) <|
          hides_cons rfl (shownBy_text hreason) <| hides_cons rfl (shownBy_text he.sourceIp) ?_
        · cases line with
          | none => exact shownBy_literal rfl
          | some l => exact shownBy_text (hline l rfl).action
        · cases line with
          | none => rfl
          | some l =>
            exact hides_cons rfl (shownBy_text (hline l rfl).symbol) <| hides_cons rfl (shownBy_ofNumber _) rfl

/-- A refusal before the alert is read. -/
theorem written_refusal (he : e.Quiet s) {status : ℕ} {reason : String} {told : Bool}
    (h : s.shownIn reason = told) :
    Written s body told (record e body none status reason) :=
  written_record he (fun l hl => absurd hl (not_mem_none l)) (h ▸ ⟨fun hr => ⟨hr, by simp⟩, And.left⟩)

theorem written_recordVtOk (he : e.Quiet s) {line : Line} (hline : line.Hides s)
    (hid : s.shownIn line.alertId = false)
    (hreason : ∀ t ∈ reason, s.shownIn t = false) : Written s body false (recordVtOk e body line reason) := by
  have hrow : (insertRow e body (some line) .accepted reason none).Hides s ↔ _ :=
    hides_insertRow he fun l hl => some.inj hl ▸ hline
  refine fun _ => ⟨fun h => ⟨(hrow.1 (h _ mem_cons_self)).1, rfl⟩, fun h x hx => ?_⟩
  rcases mem_pair.1 hx with rfl | rfl
  · exact hrow.2 ⟨h.1, hreason, fun l hl => some.inj hl ▸ hid⟩
  · refine hides_event (shownIn_literal rfl) ?_
    exact hides_cons rfl (shownBy_literal rfl) <| hides_cons rfl rfl <|
      hides_cons rfl (shownBy_literal rfl) <| hides_cons rfl (shownBy_text hline.action) <|
      hides_cons rfl (shownBy_text hline.symbol) <| hides_fieldIf rfl (shownBy_ofText.2 hreason)

theorem shownIn_excText {lead : String} (hv : v.Hides s) : s.shownIn (excText lead v) = false := by
  refine shownIn_of_infix ?_ hv
  rw [excText, String.toList_ofList]
  exact (drop_suffix _ _).isInfix

theorem hides_detailOf (hplaced : s.shownBy placed = false) (hv : v.Hides s) :
    s.shownBy (detailOf placed v) = false := by
  unfold detailOf
  split
  · exact hplaced
  · exact hides_cons rfl (shownBy_text hv) rfl
  · exact hides_cons rfl (shownBy_text (shownIn_excText hv)) rfl
  · exact hides_cons rfl (shownBy_text (shownIn_excText hv)) rfl
  · rfl

theorem hides_conclude (he : e.Quiet s) (halert : s.shownBy alert = false)
    (hplaced : s.shownBy placed = false) (hv : v.Hides s) :
    ∀ x ∈ conclude e alert placed v, x.Hides s := by
  intro x hx
  rcases mem_pair.1 hx with rfl | rfl
  · intro y hy
    rcases mem_pair.1 hy with rfl | rfl
    · exact shownBy_text (shownIn_outcome v.outcome)
    · refine shownBy_ofText.2 fun t ht => ?_
      rw [Verdict.Hides, mem_def.1 ht] at hv
      exact hv
  · refine hides_event (shownIn_severity v.outcome) ?_
    exact hides_cons rfl (shownBy_literal rfl) <| hides_cons rfl rfl <|
      hides_cons rfl (shownBy_text (shownIn_outcome v.outcome)) <| hides_cons rfl halert <|
      hides_cons rfl (shownBy_text he.sourceIp) <| hides_fieldIf rfl (hides_detailOf hplaced hv)

/-- The event repeats the alert. -/
theorem alert_of_conclude (h : ∀ x ∈ conclude e alert placed v, x.Hides s) : s.shownBy alert = false := by
  have hevent := h _ (mem_cons_of_mem _ mem_cons_self) _ (mem_cons_of_mem _ mem_cons_self)
  exact hidden_field (f := ("alert", alert)) hevent (by simp)

theorem written_admit (he : e.Quiet s) {line : Line} (hline : line.Hides s) {fp : Fingerprint} {told : Bool}
    (hplaced : s.shownBy placed = false) (hv : s.shownBy alert = false → v.Hides s)
    (htold : told = false ↔ s.shownIn line.alertId = false ∧
      (e.duplicateOf = none → e.acceptedLastMinute < w.maxPerMinute → s.shownBy alert = false)) :
    Written s body told (admission w e body line fp alert placed v) := by
  have hsome : ∀ l ∈ some line, l.Hides s := fun l hl => some.inj hl ▸ hline
  unfold admission
  split
  · next id hid =>
    have hreason : s.shownIn ("same alert accepted " ++ toString id ++ " seconds ago") = false :=
      hidden_trail rfl (hidden_lead rfl (shownIn_repr id))
    intro _
    rw [forall_mem_singleton, hides_insertRow he hsome, htold]
    exact ⟨fun h => ⟨h.1, h.2.2 line rfl, fun hnone => by rw [hid] at hnone; cases hnone⟩,
      fun h => ⟨h.1, fun t ht => some.inj ht ▸ hreason, fun l hl => some.inj hl ▸ h.2.1⟩⟩
  · next hnone =>
    by_cases hlimit : w.maxPerMinute ≤ e.acceptedLastMinute
    · rw [if_pos hlimit]
      refine written_record he hsome (htold.trans ?_)
      have hreason : s.shownIn ("more than " ++ toString w.maxPerMinute ++
          " alerts accepted in a minute; raise the limit in Automation if this is intended") = false :=
        hidden_trail rfl (hidden_lead rfl (shownIn_repr _))
      exact ⟨fun h => ⟨hreason, fun l hl => some.inj hl ▸ h.1⟩,
        fun h => ⟨h.2 line rfl, fun _ hlt => absurd hlt hlimit.not_gt⟩⟩
    · rw [if_neg hlimit]
      intro _
      rw [forall_mem_cons, hides_insertRow he hsome, htold]
      refine ⟨fun h => ⟨h.1.1, h.1.2.2 line rfl, fun _ _ => alert_of_conclude h.2⟩, fun h => ?_⟩
      have halert := h.2.2 hnone (not_le.1 hlimit)
      exact ⟨⟨h.1, fun t ht => absurd ht (not_mem_none t), fun l hl => some.inj hl ▸ h.2.1⟩,
        hides_conclude he halert hplaced (hv halert)⟩

theorem Alert.line_hides {a : Alert} (h : s.shownIn a.symbol = false) : a.line.Hides s where
  action := by
    unfold Alert.line
    cases a.action <;> exact shownIn_literal rfl
  symbol := h

theorem Alert.audited_hides {a : Alert} (h : s.shownIn a.symbol = false) (hid : s.shownIn a.alertId = false) :
    s.shownBy a.audited = false :=
  hides_cons rfl (shownBy_text (Alert.line_hides h).action) <| hides_cons rfl (shownBy_text h) <|
    hides_cons rfl (shownBy_ofNumber _) <| hides_cons rfl (shownBy_text hid) rfl

theorem VTAlert.line_hides (h : s.shownIn vt.symbol = false) : vt.line.Hides s where
  action := by
    unfold VTAlert.line
    cases vt.role <;> exact shownIn_literal rfl
  symbol := h

theorem VTAlert.audited_hides (h : s.shownIn vt.symbol = false) :
    s.shownBy vt.audited = false ↔ s.shownIn vt.tf = false := by
  refine ⟨fun haudited => hidden_field (f := ("tf", .str vt.tf)) haudited (by simp), fun htf => ?_⟩
  have hbias : s.shownBy (.str vt.bias.name) = false := by cases vt.bias <;> exact shownBy_literal rfl
  exact hides_cons rfl (shownBy_text (VTAlert.line_hides h).action) <| hides_cons rfl (shownBy_text h) <|
    hides_cons rfl (shownBy_text htf) <| hides_cons rfl hbias <| hides_cons rfl (shownBy_ofNumber _) <|
    hides_cons rfl (shownBy_ofNumber _) <| hides_cons rfl (shownBy_ofNumber _) <|
    hides_cons rfl (shownBy_ofNumber _) <| hides_cons rfl rfl rfl

section Told

variable (w e fields)

/-- What is written of an alert beside its body: the quote of a refusal, or the id. -/
def alertTold : Option String :=
  match parseAlert w.py (.dict fields) w.maxLots with
  | .error _ => alertQuote w.py w.maxLots fields
  | .ok a => some a.alertId

/-- The timeframe of an entry that is admitted. -/
def VTAlert.told (vt : VTAlert) : Option String :=
  if vt.role = .ltf ∧ vt.trigger = some true ∧ e.duplicateOf = none ∧ e.acceptedLastMinute < w.maxPerMinute then
    some vt.tf
  else none

def bridgeTold : Option String :=
  match parseVtAlert w.py (.dict fields) w.maxLots with
  | .error _ => vtQuote w.py w.maxLots fields
  | .ok vt => vt.told w e

/-- The text of the alert that a delivery writes beside the body. -/
def told : Option String :=
  match gates e with
  | .error _ => none
  | .ok () => if Json.has fields "role" then bridgeTold w e fields else alertTold w fields

end Told

variable (hgeneral : ∀ x, s.shownIn (w.py.general x) = false) (he : e.Quiet s)
include hgeneral he

theorem written_storedAlert :
    Written s (redact (.dict fields)) ((alertTold w fields).any s.shownIn) (storedAlert w e fields) := by
  have hparse : Says s (alertQuote w.py w.maxLots fields) _ := says_parseAlert hgeneral w.maxLots
  unfold storedAlert alertTold
  dsimp only
  split
  · next message hmessage =>
    rw [hmessage] at hparse
    exact written_refusal he hparse
  · next a ha =>
    split
    · exact fun hnil => absurd rfl hnil
    · next a' ha' =>
      obtain ⟨hsymbol, hid⟩ := renameSymbol_hides ha' (shownIn_ticker (s := s) (parseAlert_parts ha).1)
      have hplaced : s.shownBy (if a'.action = .buy ∨ a'.action = .sell then e.summary else .null) = false := by
        split_ifs
        · exact he.summary
        · rfl
      refine written_admit he (Alert.line_hides hsymbol) hplaced
        (fun _ => (yields_act hsymbol).result he.answers) ?_
      rw [← hid]
      exact ⟨fun h => ⟨h, fun _ _ => Alert.audited_hides hsymbol h⟩, And.left⟩

theorem bridgeVerdict_hides (hvt : s.shownIn vt.symbol = false ∧ s.shownIn vt.tf = false) :
    (bridgeVerdict w e vt).Hides s := by
  have hgate := says_checkGate hgeneral hvt e.snapshot w.allowedTimeframes e.now
  unfold bridgeVerdict
  split
  · next reason hreason =>
    rw [hreason] at hgate
    exact hgate
  · exact (yields_place hvt.1).result he.answers

theorem written_storedVt (hsymbol : s.shownIn vt.symbol = false) :
    Written s body ((vt.told w e).any s.shownIn) (storedVt w e body vt) := by
  have hline := VTAlert.line_hides hsymbol
  have hid : s.shownIn vt.line.alertId = false := shownIn_of_no_t t_not_in_int
  unfold storedVt
  split
  · next hrole =>
    rw [VTAlert.told, if_neg (by simp [hrole])]
    refine written_recordVtOk he hline hid fun t ht => ?_
    split_ifs at ht
    · exact absurd ht (not_mem_none t)
    · exact some.inj ht ▸ shownIn_literal rfl
  · next hrole =>
    unfold VTAlert.told
    by_cases htrigger : vt.trigger = some true
    · rw [if_pos htrigger]
      refine written_admit he hline he.summary
        (fun h => bridgeVerdict_hides hgeneral he ⟨hsymbol, (VTAlert.audited_hides hsymbol).1 h⟩) ?_
      rw [VTAlert.audited_hides hsymbol]
      split_ifs with hadmitted
      · exact ⟨fun h => ⟨hid, fun _ _ => h⟩, fun h => h.2 hadmitted.2.2.1 hadmitted.2.2.2⟩
      · exact ⟨fun _ => ⟨hid, fun hnone hlt => absurd ⟨hrole, htrigger, hnone, hlt⟩ hadmitted⟩, fun _ => rfl⟩
    · rw [if_neg htrigger, if_neg (by simp [htrigger])]
      exact written_recordVtOk he hline hid fun t ht => some.inj ht ▸ shownIn_literal rfl

theorem written_storedBridge :
    Written s (redact (.dict fields)) ((bridgeTold w e fields).any s.shownIn) (storedBridge w e fields) := by
  have hparse : Says s (vtQuote w.py w.maxLots fields) _ := says_parseVtAlert hgeneral w.maxLots
  unfold storedBridge bridgeTold
  dsimp only
  split
  · next message hmessage =>
    rw [hmessage] at hparse
    exact written_refusal he hparse
  · next vt hvt =>
    split_ifs
    · split
      · exact fun hnil => absurd rfl hnil
      · next symbol hsymbol =>
        refine written_storedVt hgeneral he ?_
        exact shownIn_ticker hsymbol
    · exact written_storedVt hgeneral he (shownIn_ticker (parseVtAlert_parts hvt).1)

omit hgeneral he in
theorem gates_hide : Failing (fun (refusal : ℕ × String) => s.shownIn refusal.2 = false) (gates e) := by
  unfold gates
  by_cases henabled : e.enabled = false
  · rw [if_pos henabled]
    exact shownIn_literal rfl
  rw [if_neg henabled]
  match e.org with
  | none => exact shownIn_literal rfl
  | some (copying, dryRun) =>
    dsimp only
    split_ifs
    · exact shownIn_literal rfl
    · exact shownIn_literal rfl
    · exact shownIn_literal rfl
    · trivial

theorem written_stored :
    Written s (redact (.dict fields)) ((told w e fields).any s.shownIn) (stored w e fields) := by
  have hgates := gates_hide (s := s) (e := e)
  unfold stored
  split
  · next status reason hrefused =>
    rw [hrefused] at hgates
    rw [told, hrefused]
    exact written_refusal he hgates
  · next hpassed =>
    rw [told, hpassed]
    dsimp only
    split_ifs
    · exact written_storedBridge hgeneral he
    · exact written_storedAlert hgeneral he

/-- No receipt or event shows the secret iff the body shows it only in strings that begin as one does, and the text
that is written beside the body does not show it: the field that a refusal quotes, the id of an alert, the
timeframe of an admitted entry.

The sender's address and the copier's answers do not show it, nor does a number. -/
theorem secret_scrubbed_iff (hstored : stored w e fields ≠ []) : (∀ x ∈ stored w e fields, x.Hides s) ↔
    s.bareIn (.dict fields) = false ∧ (told w e fields).any s.shownIn = false := by
  rw [← shownBy_redact]
  exact written_stored hgeneral he hstored

end Rows

/-! ### A secret pasted twice -/

/-- The secret `tvw_x7`. -/
def pastedSecret : Secret := ⟨['x', '7'], fun c hc => by fin_cases hc <;> decide⟩

/-- Python for texts alone. -/
def textPython : Python where
  float := fun _ => none
  int := fun _ => none
  str := fun v => match v with
    | .str t => t
    | _ => "None"
  repr := fun v => match v with
    | .str t => "'" ++ (t ++ "'")
    | _ => "None"
  general := fun _ => "1"

def pastedDesk : Workspace := ⟨textPython, 1, some (.finite 1), 2, 5, [], []⟩

/-- A delivery at a quiet time; the copier does not answer. -/
def pastedSituation : Situation where
  enabled := true
  org := some (true, false)
  hasMaster := true
  duplicateOf := none
  acceptedLastMinute := 0
  snapshot := none
  now := 0
  answers := fun _ => .late
  summary := .null
  sourceIp := "10.0.0.1"
  receiptId := 1
  digest := fun _ => ⟨"", by simp⟩

theorem pastedSituation_quiet : pastedSituation.Quiet pastedSecret where
  sourceIp := shownIn_literal rfl
  answers := fun _ => trivial
  summary := rfl

/-- A close; the secret stands in its field and `more` in others. -/
def pastedAlert (id : String) (more : List (String × Json)) : List (String × Json) :=
  ("secret", .str "tvw_x7") :: ("action", .str "close") :: ("symbol", .str "XAUUSD") :: ("id", .str id) :: more

def nestedAlert : List (String × Json) :=
  pastedAlert "7" [("stop_loss", .str "tvw_x7"),
    ("notes", .dict [("key", .list [.str "tvw_x7", .str "tvw_x7 again"])])]

/-- The secret pasted into a field that a close does not read, and into a nested list, is scrubbed. -/
theorem secret_scrubbed_nested : stored pastedDesk pastedSituation nestedAlert ≠ [] ∧
    ∀ x ∈ stored pastedDesk pastedSituation nestedAlert, x.Hides pastedSecret := by
  have hrows : stored pastedDesk pastedSituation nestedAlert ≠ [] := ne_nil_of_length_pos (by decide)
  have hgeneral : ∀ x, pastedSecret.shownIn (pastedDesk.py.general x) = false := fun _ => shownIn_literal rfl
  exact ⟨hrows, (secret_scrubbed_iff hgeneral pastedSituation_quiet hrows).2 (by decide +kernel)⟩

/-- **The id is stored as it came**, in the receipt and in the event. -/
theorem secret_stored_in_id : ∃ fields : List (String × Json),
    (∃ t, Json.get fields "secret" = .str t ∧ t.toList = pastedSecret.text) ∧ pastedSituation.Quiet pastedSecret ∧
      ∃ x ∈ stored pastedDesk pastedSituation fields, ¬ x.Hides pastedSecret := by
  refine ⟨pastedAlert "tvw_x7" [], ⟨"tvw_x7", rfl, by decide⟩, pastedSituation_quiet, ?_⟩
  have hshown : (stored pastedDesk pastedSituation (pastedAlert "tvw_x7" [])).any
      (fun x => x.values.any pastedSecret.shownBy) = true := by decide
  obtain ⟨x, hx, hany⟩ := any_eq_true.1 hshown
  obtain ⟨v, hv, hsecret⟩ := any_eq_true.1 hany
  exact ⟨x, hx, fun h => absurd (h v hv) (by rw [hsecret]; decide)⟩

end Webhook
