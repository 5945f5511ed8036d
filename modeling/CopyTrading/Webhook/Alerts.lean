import Mathlib

/-!
# Webhook.Alerts — reading an alert (`tradingview_alerts.py`, `vt_bridge_alerts.py`)

An alert is a JSON body.  A ticker loses its exchange and its decorations and nothing else, a size must be
finite, positive and within the workspace's cap, and what cannot be read is refused with a message.
-/

namespace Webhook

/-! ### Values -/

/-- A Python float. -/
inductive PyFloat where
  | finite (x : ℚ)
  | nan
  | inf (negative : Bool)
  deriving DecidableEq

/-- What `json.loads` returns. -/
inductive Json where
  | null
  | bool (b : Bool)
  | int (n : ℤ)
  | num (x : PyFloat)
  | str (s : String)
  | list (items : List Json)
  | dict (fields : List (String × Json))

/-- `body.get(key)`: the last of several fields of one name; an absent field is `null`. -/
def Json.get (fields : List (String × Json)) (key : String) : Json :=
  ((fields.reverse.find? fun f => f.1 = key).map Prod.snd).getD .null

def Json.has (fields : List (String × Json)) (key : String) : Bool := fields.any fun f => f.1 = key

/-- `bool(x)`. -/
def Json.truthy : Json → Bool
  | .null => false
  | .bool b => b
  | .int n => n ≠ 0
  | .num x => x ≠ .finite 0
  | .str s => s ≠ ""
  | .list items => !items.isEmpty
  | .dict fields => !fields.isEmpty

/-- What Python does with text and numbers. -/
structure Python where
  /-- `float(text)` and `int(text)`; `none` where they raise. -/
  float : String → Option PyFloat
  int : String → Option ℤ
  str : Json → String
  repr : Json → String
  /-- `f"{x:g}"`. -/
  general : ℚ → String

/-- `str.isspace`, of one character. -/
def isSpace (c : Char) : Bool :=
  let n := c.toNat
  9 ≤ n && n ≤ 13 || 28 ≤ n && n ≤ 32 || 0x2000 ≤ n && n ≤ 0x200A ||
    n ∈ [0x85, 0xA0, 0x1680, 0x2028, 0x2029, 0x202F, 0x205F, 0x3000]

/-- `str.strip`. -/
def strip (s : List Char) : List Char := ((s.dropWhile isSpace).reverse.dropWhile isSpace).reverse

/-- The letters beyond ASCII whose capitals are ASCII. -/
def capitals : List (Char × List Char) :=
  [('ı', ['I']), ('ſ', ['S']), ('ß', ['S', 'S']), ('ﬀ', ['F', 'F']), ('ﬁ', ['F', 'I']), ('ﬂ', ['F', 'L']),
    ('ﬃ', ['F', 'F', 'I']), ('ﬄ', ['F', 'F', 'L']), ('ﬅ', ['S', 'T']), ('ﬆ', ['S', 'T'])]

/-- `str.upper`; other letters beyond ASCII stay, as they are in no ticker. -/
def upper (s : List Char) : List Char := s.flatMap fun c => (capitals.lookup c).getD [c.toUpper]

/-- `str.lower`: the Kelvin sign is the one letter beyond ASCII that becomes an ASCII one. -/
def lower (s : List Char) : List Char := s.map fun c => if c = '\u212a' then 'k' else c.toLower

/-! ### Tickers -/

/-- `_EXCHANGE_PREFIX`, removed once. -/
def stripExchange (s : List Char) : List Char :=
  let name := s.takeWhile fun c => c.isUpper || c.isDigit || c = '_'
  match s.drop name.length with
  | ':' :: rest => if name = [] then s else rest
  | _ => s

/-- One decoration, `\d*!` or `\.[A-Z]+`: what follows it. -/
def decoration (s : List Char) : Option (List Char) :=
  match s with
  | '.' :: rest =>
    let tail := rest.dropWhile Char.isUpper
    if tail.length < rest.length then some tail else none
  | _ =>
    match s.dropWhile Char.isDigit with
    | '!' :: rest => some rest
    | _ => none

/-- The text is one decoration after the other; `fuel` bounds their number. -/
def decorated : ℕ → List Char → Bool
  | 0, _ => false
  | fuel + 1, s =>
    match decoration s with
    | none => false
    | some [] => true
    | some rest => decorated fuel rest

/-- `_SUFFIXES`, removed. -/
def stripSuffixes : List Char → List Char
  | [] => []
  | c :: s => if decorated (s.length + 1) (c :: s) then [] else c :: stripSuffixes s

/-- `_ALLOWED.match`; `$` also matches before a last newline. -/
def allowed (s : List Char) : Bool :=
  let name := if s.getLast? = some '\n' then s.dropLast else s
  3 ≤ name.length && name.length ≤ 20 && name.all fun c => c.isUpper || c.isDigit

theorem ok_of_toOption {ε α : Type} {x : Except ε α} {a : α} (h : x.toOption = some a) : x = .ok a := by
  cases x with
  | error e => cases h
  | ok b => exact congrArg Except.ok (Option.some.inj h)

theorem bind_ok {ε α β : Type} {x : Except ε α} {f : α → Except ε β} {b : β} (h : (x >>= f) = .ok b) :
    ∃ a, x = .ok a ∧ f a = .ok b := by
  cases x with
  | error e => cases h
  | ok a => exact ⟨a, rfl, h⟩

section Parse

variable (py : Python) {symbol : String}

/-- `normalise_ticker`. -/
def normaliseTicker : Json → Except String String
  | .str raw =>
    let ticker := stripSuffixes (stripExchange (upper (strip raw.toList)))
    if allowed ticker then .ok (String.ofList ticker)
    else .error ("could not read a symbol from " ++ py.repr (.str raw) ++
      "; expected something like \"XAUUSD\" or \"OANDA:XAUUSD\"")
  | _ => .error "symbol must be text, e.g. \"XAUUSD\" or \"OANDA:XAUUSD\""

/-! ### Numbers -/

/-- `float(raw)`. -/
def toFloat : Json → Option PyFloat
  | .int n => if n.natAbs < 2 ^ 1024 then some (.finite n) else none
  | .num x => some x
  | .str s => py.float s
  | _ => none

/-- `_number`. -/
def number (raw : Json) (key : String) : Except String PyFloat :=
  let refused := key ++ " must be a number, got " ++ py.repr raw
  match raw with
  | .bool _ => .error refused
  | .str s =>
    if 32 < s.length then .error (key ++ " is not a valid number")
    else ((toFloat py raw).map Except.ok).getD (.error refused)
  | _ => ((toFloat py raw).map Except.ok).getD (.error refused)

/-- A finite positive number. -/
def positive (x : PyFloat) (message : String) : Except String ℚ :=
  match x with
  | .finite x => if 0 < x then .ok x else .error message
  | _ => .error message

/-- `raw is None or raw == ""`. -/
def Json.blank : Json → Bool
  | .null => true
  | .str s => s = ""
  | _ => false

/-- `_price`. -/
def price (body : List (String × Json)) (key : String) : Except String (Option ℚ) :=
  let raw := Json.get body key
  if raw.blank then .ok none
  else do
    let value ← number py raw key
    let x ← positive value (key ++ " must be a positive price, got " ++ py.repr raw)
    return some x

/-- `HARD_MAX_LOTS`. -/
def hardMaxLots : ℚ := 50

/-- The cap on a size; `none` if the workspace has no valid one. -/
def lotCap : Option PyFloat → Option ℚ
  | some (.finite x) => if 0 < x then some (min x hardMaxLots) else none
  | _ => none

/-- `raise AlertError(message)` under a condition. -/
def refuseIf (c : Prop) [Decidable c] (message : String) : Except String Unit :=
    if c then .error message else .ok ()

/-- The value, or a refusal. -/
def orRefuse {α : Type} (x : Option α) (message : String) : Except String α :=
  match x with
  | some a => .ok a
  | none => .error message

/-- The checks of `lots`, the same for both kinds of alert. -/
def readLots (body : List (String × Json)) (maxLots : Option PyFloat) (missing : String) : Except String ℚ := do
  let raw := Json.get body "lots"
  refuseIf raw.blank missing
  let value ← number py raw "lots"
  let lots ← positive value ("lots must be greater than 0, got " ++ py.repr raw)
  let cap ← orRefuse (lotCap maxLots) "this workspace has no lot cap configured; set one in Automation"
  refuseIf (cap < lots) ("lots " ++ py.general lots ++ " is above this workspace's cap of " ++ py.general cap ++
    ". Raise the cap in Automation settings if that size is intended.")
  return lots

/-! ### Alerts -/

/-- The actions of an alert. -/
inductive AlertAction where
  | buy | sell | close | cancel
  deriving DecidableEq, Repr

inductive OrderType where
  | market | stop | limit
  deriving DecidableEq, Repr

/-- `Alert`. -/
structure Alert where
  action : AlertAction
  symbol : String
  lots : Option ℚ
  stopLoss : Option ℚ
  takeProfit : Option ℚ
  alertId : String
  orderType : OrderType
  price : Option ℚ
  deriving DecidableEq

/-- `str(raw).strip().lower()`. -/
def word (raw : Json) : String := String.ofList (lower (strip (py.str raw).toList))

def actionOf (name : String) : Option AlertAction :=
  if name = "buy" then some .buy
  else if name = "sell" then some .sell
  else if name = "close" then some .close
  else if name = "cancel" then some .cancel
  else none

def orderTypeOf (name : String) : Option OrderType :=
  if name = "market" then some .market
  else if name = "stop" then some .stop
  else if name = "limit" then some .limit
  else none

/-- `_UNEXPANDED.search`: two opening braces and, later on the line, two closing ones. -/
def unexpanded : List Char → Bool
  | [] => false
  | c :: s =>
    (match c, s with
      | '\x7b', '\x7b' :: rest => (['\x7d', '\x7d'] : List Char) <:+: rest.takeWhile (· ≠ '\n')
      | _, _ => false) || unexpanded s

/-- The placeholder that an alert's id is meant to be. -/
def timenow : String := "\x7b\x7btimenow\x7d\x7d"

/-- `body.get("symbol", body.get("ticker"))`. -/
def tickerOf (body : List (String × Json)) : Json :=
  if Json.has body "symbol" then Json.get body "symbol" else Json.get body "ticker"

/-- The id of an alert. -/
def readId (body : List (String × Json)) : Except String String :=
  let raw := Json.get body "id"
  let text := match raw with
    | .null => []
    | _ => (strip (py.str raw).toList).take 128
  if text = [] then
    .error ("id is required -- add \"id\": \"" ++ timenow ++
      "\" to the alert message so repeated signals are not mistaken for one another")
  else if unexpanded text then
    .error ("id arrived as the literal " ++ py.repr (.str (String.ofList text)) ++
      ": TradingView did not expand the placeholder. Placeholders only render in the alert dialog's " ++
      "Message box, not inside strategy.entry(alert_message=...)")
  else .ok (String.ofList text)

/-- `parse_alert`. -/
def parseAlert (body : Json) (maxLots : Option PyFloat) : Except String Alert :=
  match body with
  | .dict body => do
    let action ← orRefuse (actionOf (if Json.has body "action" then word py (Json.get body "action") else ""))
      ("action must be one of buy, sell, close, cancel; got " ++ py.repr (Json.get body "action"))
    let symbol ← normaliseTicker py (tickerOf body)
    let alertId ← readId py body
    if action = .close ∨ action = .cancel then
      pure ⟨action, symbol, none, none, none, alertId, .market, none⟩
    else do
      let lots ← readLots py body maxLots "lots is required for buy and sell, e.g. \"lots\": 0.01"
      let stopLoss ← price py body "stop_loss"
      let takeProfit ← price py body "take_profit"
      let raw := Json.get body "order_type"
      let orderType ← orRefuse (orderTypeOf (if raw.truthy then word py raw else "market"))
        ("order_type must be one of market, stop, limit; got " ++ py.repr raw)
      let level ← price py body "price"
      refuseIf (orderType ≠ .market ∧ level = none) ("price is required for a " ++
        (if orderType = .stop then "stop" else "limit") ++ " order, e.g. \"price\": 4370.25")
      return ⟨action, symbol, some lots, stopLoss, takeProfit, alertId, orderType,
        if orderType = .market then none else level⟩
  | _ =>
    .error "the alert message must be JSON, e.g. \x7b\"action\":\"buy\",\"symbol\":\"XAUUSD\",\"lots\":0.01\x7d"

/-- The workspace's own rename of a symbol. -/
def renameSymbol (aliases : List (String × Json)) (alert : Alert) : Except String Alert :=
  if Json.has aliases alert.symbol then
    (normaliseTicker py (Json.get aliases alert.symbol)).map fun symbol => { alert with symbol := symbol }
  else .ok alert

/-! ### Bridge alerts -/

inductive Role where
  | htf | ltf
  deriving DecidableEq, Repr

inductive Bias where
  | long | short
  deriving DecidableEq, Repr

def Bias.name : Bias → String
  | .long => "long"
  | .short => "short"

def roleOf (name : String) : Option Role :=
  if name = "htf" then some .htf else if name = "ltf" then some .ltf else none

def biasOf (name : String) : Option Bias :=
  if name = "long" then some .long else if name = "short" then some .short else none

/-- `VTAlert`. -/
structure VTAlert where
  role : Role
  symbol : String
  tf : String
  bias : Bias
  entry : ℚ
  stop : ℚ
  target : ℚ
  price : ℚ
  valid : Bool
  trigger : Option Bool
  lots : Option ℚ
  barMs : ℤ
  deriving DecidableEq

/-- `str(body.get(key, ""))`. -/
def textOf (body : List (String × Json)) (key : String) : String :=
  if Json.has body key then py.str (Json.get body key) else ""

/-- `_finite_positive`. -/
def finitePositive (body : List (String × Json)) (key : String) : Except String ℚ :=
  let raw := Json.get body key
  if raw.blank then .error (key ++ " is required, e.g. \"" ++ key ++ "\": 4385.34")
  else (number py raw key).bind fun value =>
    positive value (key ++ " must be a positive price, got " ++ py.repr raw)

/-- `_bool_field`. -/
def boolField (body : List (String × Json)) (key : String) : Except String Bool :=
  match Json.get body key with
  | .bool b => .ok b
  | raw => .error (key ++ " must be true or false, got " ++ py.repr raw)

/-- `int(raw)`. -/
def toInt : Json → Option ℤ
  | .bool b => some b.toNat
  | .int n => some n
  | .num (.finite x) => some (Int.tdiv x.num x.den)
  | .str s => py.int s
  | _ => none

/-- `parse_vt_alert`. -/
def parseVtAlert (body : Json) (maxLots : Option PyFloat) : Except String VTAlert :=
  match body with
  | .dict body => do
    let role ← orRefuse (roleOf (textOf py body "role"))
      ("role must be one of htf, ltf; got " ++ py.repr (Json.get body "role"))
    let symbol ← normaliseTicker py (tickerOf body)
    let tf := textOf py body "tf"
    refuseIf (tf = "") "tf is required, e.g. \"tf\": \"60\""
    let bias ← orRefuse (biasOf (textOf py body "bias"))
      ("bias must be one of long, short; got " ++ py.repr (Json.get body "bias"))
    let entry ← finitePositive py body "entry"
    let stop ← finitePositive py body "stop"
    let target ← finitePositive py body "target"
    let price ← finitePositive py body "price"
    let valid ← boolField py body "valid"
    let barMs ← orRefuse (toInt py (Json.get body "bar_ms"))
      "bar_ms is required and must be a whole number of milliseconds"
    if role = .htf then
      pure ⟨role, symbol, tf, bias, entry, stop, target, price, valid, none, none, barMs⟩
    else do
      let trigger ← boolField py body "trigger"
      let lots ← readLots py body maxLots "lots is required for role \"ltf\", e.g. \"lots\": 0.01"
      return ⟨role, symbol, tf, bias, entry, stop, target, price, valid, some trigger, some lots, barMs⟩
  | _ =>
    .error ("the alert message must be JSON, e.g. " ++
      "\x7b\"role\":\"ltf\",\"symbol\":\"XAUUSD\",\"bias\":\"long\",...\x7d")

/-- `VTSnapshot`; the time in seconds. -/
structure VTSnapshot where
  bias : Bias
  stop : ℚ
  target : ℚ
  tf : String
  receivedAt : ℚ
  deriving DecidableEq

/-- `TOL_PCT` and `STALE_MULTIPLIER`. -/
def tolPct : ℚ := 1 / 50

def staleMultiplier : ℤ := 2

/-- `check_gate`: the reason of the first failure. -/
def checkGate (htf : Option VTSnapshot) (ltf : VTAlert) (allowedTimeframes : List String) (now : ℚ) :
    Except String Unit :=
  if ltf.tf ∉ allowedTimeframes then
    .error ("entry timeframe " ++ ltf.tf ++ " is not enabled for this workspace")
  else if ltf.valid = false then
    .error "LTF setup is not valid (stop/target on the wrong side of entry)"
  else
    match htf with
    | none => .error ("no HTF snapshot for " ++ ltf.symbol ++ " yet")
    | some htf =>
      let maxAge := staleMultiplier * (py.int htf.tf).getD 0 * 60
      let age := now - htf.receivedAt
      let lo := min htf.stop htf.target
      let hi := max htf.stop htf.target
      let tol := tolPct * (hi - lo)
      if maxAge ≤ 0 ∨ (maxAge : ℚ) < age then
        .error ("HTF snapshot for " ++ ltf.symbol ++ " is " ++ toString (Int.tdiv age.num age.den) ++
          "s old (max " ++ toString maxAge ++ "s)")
      else if ltf.bias ≠ htf.bias then
        .error ("LTF bias (" ++ ltf.bias.name ++ ") does not match HTF bias (" ++ htf.bias.name ++ ")")
      else if lo - tol ≤ ltf.entry ∧ ltf.entry ≤ hi + tol then .ok ()
      else
        .error ("LTF entry " ++ py.general ltf.entry ++ " is outside the HTF band [" ++ py.general lo ++ ", " ++
          py.general hi ++ "] (±" ++ py.general tol ++ ")")

/-! ### What an alert keeps of its body -/

variable {py} {fields : List (String × Json)} {maxLots : Option PyFloat}

/-- A ticker has capital letters, digits and at most a line end. -/
theorem mem_ticker {v : Json} (h : normaliseTicker py v = .ok symbol) {c : Char}
    (hc : c ∈ symbol.toList) : c.isUpper = true ∨ c.isDigit = true ∨ c = '\n' := by
  unfold normaliseTicker at h
  split at h
  · dsimp only at h
    split_ifs at h with hallowed
    obtain rfl := Except.ok.inj h
    rw [String.toList_ofList] at hc
    generalize stripSuffixes _ = ticker at hallowed hc
    unfold allowed at hallowed
    simp only [Bool.and_eq_true, List.all_eq_true, Bool.or_eq_true] at hallowed
    have hname := hallowed.2 c
    split_ifs at hname with hlast
    · obtain ⟨front, rfl⟩ := List.getLast?_eq_some_iff.1 hlast
      rw [List.dropLast_concat] at hname
      rcases List.mem_append.1 hc with hc | hc
      · exact (hname hc).imp_right .inl
      · exact .inr (.inr (List.mem_singleton.1 hc))
    · exact (hname hc).imp_right .inl
  · cases h

theorem upper_ticker {v : Json} (h : normaliseTicker py v = .ok symbol) :
    upper symbol.toList = symbol.toList := by
  have hsame : ∀ c ∈ symbol.toList, (capitals.lookup c).getD [c.toUpper] = [c] := by
    intro c hc
    have hlt : c.val < 'a'.val := by
      rcases mem_ticker h hc with hupper | hdigit | rfl
      · exact UInt32.lt_of_le_of_lt (of_decide_eq_true hupper).2 (by decide)
      · exact UInt32.lt_of_le_of_lt (of_decide_eq_true (Bool.and_eq_true_iff.1 hdigit).2) (by decide)
      · decide
    have habove : ∀ p ∈ capitals, 'a'.val ≤ p.1.val := by decide
    have hnone : capitals.lookup c = none := by
      refine List.lookup_eq_none_iff.2 fun p hp => ?_
      exact bne_iff_ne.2 fun heq => absurd (habove p hp) (UInt32.not_le.2 (heq ▸ hlt))
    have hcapital : c.toUpper = c := dif_neg fun hlower => absurd hlower.1 (UInt32.not_le.2 hlt)
    rw [hnone, Option.getD_none, hcapital]
  rw [upper, List.flatMap_congr hsame, List.flatMap_singleton']

theorem parseAlert_parts {a : Alert} (h : parseAlert py (.dict fields) maxLots = .ok a) :
    normaliseTicker py (tickerOf fields) = .ok a.symbol ∧ readId py fields = .ok a.alertId ∧
      (a.action = .buy ∨ a.action = .sell → ∃ lots missing, a.lots = some lots ∧
        readLots py fields maxLots missing = .ok lots) := by
  obtain ⟨action, -, h⟩ := bind_ok h
  obtain ⟨symbol, hsymbol, h⟩ := bind_ok h
  obtain ⟨alertId, hid, h⟩ := bind_ok h
  split_ifs at h with hc
  · cases h
    refine ⟨hsymbol, hid, fun hb => ?_⟩
    rcases hc with rfl | rfl <;> rcases hb with hb | hb <;> exact absurd hb nofun
  · obtain ⟨lots, hlots, h⟩ := bind_ok h
    obtain ⟨stopLoss, -, h⟩ := bind_ok h
    obtain ⟨takeProfit, -, h⟩ := bind_ok h
    obtain ⟨orderType, -, h⟩ := bind_ok h
    obtain ⟨level, -, h⟩ := bind_ok h
    obtain ⟨_, -, h⟩ := bind_ok h
    cases h
    exact ⟨hsymbol, hid, fun _ => ⟨lots, _, rfl, hlots⟩⟩

theorem parseVtAlert_parts {vt : VTAlert} (h : parseVtAlert py (.dict fields) maxLots = .ok vt) :
    normaliseTicker py (tickerOf fields) = .ok vt.symbol ∧ vt.tf = textOf py fields "tf" ∧
      (vt.role = .ltf → ∃ lots missing, vt.lots = some lots ∧
        readLots py fields maxLots missing = .ok lots) := by
  obtain ⟨role, -, h⟩ := bind_ok h
  obtain ⟨symbol, hsymbol, h⟩ := bind_ok h
  obtain ⟨_, -, h⟩ := bind_ok h
  obtain ⟨bias, -, h⟩ := bind_ok h
  obtain ⟨entry, -, h⟩ := bind_ok h
  obtain ⟨stop, -, h⟩ := bind_ok h
  obtain ⟨target, -, h⟩ := bind_ok h
  obtain ⟨price, -, h⟩ := bind_ok h
  obtain ⟨valid, -, h⟩ := bind_ok h
  obtain ⟨barMs, -, h⟩ := bind_ok h
  split_ifs at h with hc
  · cases h
    exact ⟨hsymbol, rfl, fun hrole => absurd (hc.symm.trans hrole) nofun⟩
  · obtain ⟨trigger, -, h⟩ := bind_ok h
    obtain ⟨lots, hlots, h⟩ := bind_ok h
    cases h
    exact ⟨hsymbol, rfl, fun _ => ⟨lots, _, rfl, hlots⟩⟩

/-- A rename changes the symbol alone, to a ticker. -/
theorem renameSymbol_parts {aliases : List (String × Json)} {a a' : Alert}
    (h : renameSymbol py aliases a = .ok a') :
    a' = a ∨ ∃ symbol, normaliseTicker py (Json.get aliases a.symbol) = .ok symbol ∧
      a' = { a with symbol := symbol } := by
  unfold renameSymbol at h
  split_ifs at h
  · cases hsymbol : normaliseTicker py (Json.get aliases a.symbol) with
    | error m =>
      rw [hsymbol] at h
      cases h
    | ok symbol =>
      rw [hsymbol] at h
      exact .inr ⟨symbol, rfl, (Except.ok.inj h).symm⟩
  · exact .inl (Except.ok.inj h).symm

end Parse

end Webhook
