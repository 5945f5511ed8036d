import CopyTrading.Mt5.Exchange

/-!
# Mt5.NetTerminal — a netting trading terminal (`MirrorFleet.mq5`, `DoOpen` to `DoCancelPending`)

A netting terminal holds one position a symbol.  A fill opens it, grows it, reduces it, empties it or flips it;
a position that is opened or flipped has the ticket of the order that did it, and a flip keeps the position
identifier that the deals name.  How much of an order the market fills is the market's choice.
-/

namespace Copier.Mt5

/-! ### Lots -/

/-- `SYMBOL_VOLUME_MIN`, `SYMBOL_VOLUME_MAX` and `SYMBOL_VOLUME_STEP`, in centilots. -/
structure SymbolSpec where
  vmin : ℕ
  vmax : ℕ
  step : ℕ

/-- The step that `NormalizeLots` uses. -/
def SymbolSpec.lotStep (spec : SymbolSpec) : ℕ :=
  if spec.step = 0 then if 0 < spec.vmin then spec.vmin else 1 else spec.step

/-- `NormalizeLots`. -/
def normalizeLots (spec : SymbolSpec) (lots : ℕ) : ℕ :=
  let v := (2 * lots + spec.lotStep) / (2 * spec.lotStep) * spec.lotStep
  if 2 * v < spec.lotStep then 0
  else
    let v := if v < spec.vmin then spec.vmin else v
    if 0 < spec.vmax ∧ spec.vmax < v then spec.vmax else v

@[simp] theorem signed_opposite (side : Side) (v : ℕ) : signed (Side.opposite side) v = -signed side v := by
  cases side <;> simp [Side.opposite, signed]

@[simp] theorem signed_zero (side : Side) : signed side 0 = 0 := by
  cases side <;> rfl

theorem signed_add (side : Side) (v w : ℕ) : signed side (v + w) = signed side v + signed side w := by
  cases side
  · simp [signed]
  · simp only [signed, Nat.cast_add, neg_add]

theorem eq_opposite {side side' : Side} (h : side ≠ side') : side' = Side.opposite side := by
  cases side <;> cases side' <;> first | rfl | exact absurd rfl h

/-- Any volume from one centilot on. -/
def anyLots : String → Option SymbolSpec := fun _ => some ⟨1, 0, 1⟩

/-- Netting accounts only; every symbol is traded as EURUSD. -/
def nettingAccounts : ServerConfig := ⟨1, fun _ => true, fun _ => some fun _ => some "EURUSD"⟩

/-! ### The book -/

/-- The net position of a symbol. -/
structure NetPosition where
  symbol : String
  ticket : ℕ
  /-- `DEAL_POSITION_ID`. -/
  identifier : ℕ
  side : Side
  volume : ℕ
  levels : Levels
  positive : 0 < volume
  deriving DecidableEq

instance : Keyed NetPosition String := ⟨NetPosition.symbol⟩

@[simp] theorem key_netPosition (p : NetPosition) : Keyed.key p = p.symbol := rfl

def NetPosition.signed (p : NetPosition) : ℤ := Copier.signed p.side p.volume

/-- A pending order of the terminal. -/
structure NetOrder where
  ticket : ℕ
  symbol : String
  orderType : PendingOrderType
  volume : ℕ
  price : ℚ
  levels : Levels
  deriving DecidableEq

/-- What the market does with the next order: how much of it is filled (all if `none`), the price and the time. -/
structure Market where
  liquidity : Option ℕ
  price : ℚ
  timeMs : ℕ

/-- The book of a netting terminal. -/
structure NetBook where
  positions : Table NetPosition
  orders : List NetOrder
  /-- Oldest first. -/
  deals : List ReportDeal
  /-- The last ticket given to an order or to a deal. -/
  lastTicket : ℕ
  market : Market

/-- The volume that the market fills. -/
def Market.fills (m : Market) (lots : ℕ) : ℕ := (m.liquidity.map (min lots)).getD lots

theorem Market.fills_le (m : Market) (lots : ℕ) : m.fills lots ≤ lots := by
  unfold Market.fills
  cases m.liquidity with
  | none => exact le_rfl
  | some k => exact min_le_left lots k

/-- An order's levels replace the position's where it states them. -/
def mergeLevels (levels old : Levels) : Levels :=
  ⟨levels.stopLoss.or old.stopLoss, levels.takeProfit.or old.takeProfit⟩

/-- The position that a fill leaves. -/
def NetPosition.meet (p : NetPosition) (side : Side) (volume ticket : ℕ) (levels : Levels) : Option NetPosition :=
  if p.side = side then
    some { p with
      volume := p.volume + volume, levels := mergeLevels levels p.levels, positive :=
        Nat.add_pos_left p.positive _ }
  else if h : volume < p.volume then
    some { p with volume := p.volume - volume, positive := Nat.sub_pos_of_lt h }
  else if h : p.volume < volume then
    some { p with
      ticket := ticket, side := side, volume := volume - p.volume, levels := levels, positive :=
        Nat.sub_pos_of_lt h }
  else none

/-- `DEAL_ENTRY` of a fill. -/
def NetPosition.entry (p : NetPosition) (side : Side) (volume : ℕ) : DealEntry :=
  if p.side = side then .entryIn else if volume ≤ p.volume then .entryOut else .entryInOut

namespace NetBook

variable (t : NetBook)

/-- The net volume of a symbol, signed. -/
def net (symbol : String) : ℤ := ((t.positions.find symbol).map NetPosition.signed).getD 0

/-- The position of a symbol after a fill by the order `ticket`. -/
def filled (symbol : String) (side : Side) (volume ticket : ℕ) (levels : Levels) : Option NetPosition :=
  match t.positions.find symbol with
  | none => if h : 0 < volume then some ⟨symbol, ticket, ticket, side, volume, levels, h⟩ else none
  | some p => p.meet side volume ticket levels

/-- The deal of a fill. -/
def dealFor (symbol : String) (side : Side) (volume order : ℕ) : ReportDeal where
  ticket := t.lastTicket + 1
  position := ((t.positions.find symbol).map NetPosition.identifier).getD order
  order := order
  symbol := symbol
  dealType := match side with | .buy => .buy | .sell => .sell
  entry := ((t.positions.find symbol).map fun p => p.entry side volume).getD .entryIn
  volume := volume
  price := t.market.price
  timeMs := t.market.timeMs

/-- `volume` of a symbol is bought or sold by the order `order`. -/
def fill (symbol : String) (side : Side) (volume order : ℕ) (levels : Levels) : NetBook :=
  { t with
    positions := t.positions.put symbol (t.filled symbol side volume order levels)
    deals := t.deals ++ [t.dealFor symbol side volume order]
    lastTicket := t.lastTicket + 1 }

/-- The result of a refused command. -/
def refused : Result := ⟨false, none, none, none, none⟩

/-- A market order of a command; its ticket is the next. -/
def trade (symbol : String) (side : Side) (lots : ℕ) (levels : Levels) : Option NetBook :=
  let volume := t.market.fills lots
  if volume = 0 then none else some (t.fill symbol side volume (t.lastTicket + 1) levels)

/-- The position with a ticket. -/
def byTicket (ticket : ℕ) : Option NetPosition := t.positions.rows.find? fun p => p.ticket = ticket

/-- `DoOpen`. -/
def doOpen (specs : String → Option SymbolSpec) (symbol : String) (side : Side) (volume : ℕ) (levels : Levels) :
    NetBook × Result :=
  match specs symbol with
  | none => (t, refused)
  | some spec =>
    let lots := normalizeLots spec volume
    if lots = 0 then (t, refused)
    else
      match t.trade symbol side lots levels with
      | none => (t, refused)
      | some t' =>
        -- the ticket that the terminal shows now, if anything is left
        (t', ⟨true, (t'.positions.find symbol).map NetPosition.ticket, some t'.lastTicket, some t'.lastTicket,
          some (t.market.fills lots)⟩)

/-- `DoClose`. -/
def doClose (specs : String → Option SymbolSpec) (ticket want : ℕ) : NetBook × Result :=
  match t.byTicket ticket with
  | none => (t, ⟨true, some ticket, none, none, none⟩)
  | some p =>
    let spec := (specs p.symbol).getD ⟨0, 0, 0⟩
    let full : Bool := want = 0 || 2 * p.volume ≤ 2 * want + spec.step
    let lots := if full then p.volume else normalizeLots spec want
    if lots = 0 then (t, refused)
    else
      match t.trade p.symbol (Side.opposite p.side) (min lots p.volume) .unset with
      | none => (t, refused)
      | some t' => (t', ⟨true, some ticket, some t'.lastTicket, some t'.lastTicket, some lots⟩)

/-- `DoAmend`. -/
def doAmend (ticket : ℕ) (levels : Levels) : NetBook × Result :=
  match t.byTicket ticket with
  | none => (t, refused)
  | some p => ({ t with positions := t.positions.put p.symbol (some { p with levels := levels }) },
      ⟨true, some ticket, none, none, none⟩)

/-- `DoPlacePending`. -/
def doPlacePending (specs : String → Option SymbolSpec) (symbol : String)
    (orderType : PendingOrderType) (volume : ℕ)
    (price : ℚ) (levels : Levels) : NetBook × Result :=
  match specs symbol with
  | none => (t, refused)
  | some spec =>
    let lots := normalizeLots spec volume
    if lots = 0 ∨ price ≤ 0 then (t, refused)
    else
      ({ t with
          orders := t.orders ++ [⟨t.lastTicket + 1, symbol, orderType, lots, price, levels⟩]
          lastTicket := t.lastTicket + 1 },
        ⟨true, none, none, some (t.lastTicket + 1), some lots⟩)

/-- `DoAmendPending`: a pending order cannot be resized. -/
def doAmendPending (order : ℕ) (price : ℚ) (levels : Levels) : NetBook × Result :=
  match t.orders.find? fun o => o.ticket = order with
  | none => (t, refused)
  | some o =>
    ({ t with orders := t.orders.map fun o =>
        if o.ticket = order then { o with price := if price ≤ 0 then o.price else price, levels :=
          levels } else o },
      ⟨true, none, none, some order, some o.volume⟩)

/-- `DoCancelPending`. -/
def doCancelPending (order : ℕ) : NetBook × Result :=
  ({ t with orders := t.orders.filter fun o => o.ticket ≠ order }, ⟨true, none, none, some order, none⟩)

/-- `ExecuteLine`, by the kind. -/
def exec (specs : String → Option SymbolSpec) (payload : Payload) (t : NetBook) : NetBook × Result :=
  match payload with
  | .openMarket symbol side volume levels _ => t.doOpen specs symbol side volume levels
  | .closePosition position volume => t.doClose specs position volume
  | .amend position levels => t.doAmend position levels
  | .placePending symbol orderType volume price levels _ _ =>
    t.doPlacePending specs symbol orderType volume price levels
  | .amendPending order _ price levels => t.doAmendPending order price levels
  | .cancelPending order => t.doCancelPending order

/-! ### What happens without a command -/

/-- What the terminal does on its own. -/
inductive Move where
  | market (m : Market)
  /-- A stop or target is hit, or the owner closes (part of) a position. -/
  | close (ticket volume : ℕ)
  /-- The owner trades. -/
  | trade (symbol : String) (side : Side) (volume : ℕ)
  /-- A pending order fills. -/
  | trigger (order : ℕ)
  /-- A pending order expires or is deleted. -/
  | drop (order : ℕ)

def move (m : Move) (t : NetBook) : Option NetBook :=
  match m with
  | .market m => some { t with market := m }
  | .close ticket volume =>
    (t.byTicket ticket).bind fun p => t.trade p.symbol (Side.opposite p.side) (min volume p.volume) .unset
  | .trade symbol side volume => t.trade symbol side volume .unset
  | .trigger order =>
    (t.orders.find? fun o => o.ticket = order).bind fun o =>
      if o.volume = 0 then none
      else some { t.fill o.symbol (sideOf o.orderType) o.volume order o.levels with
        orders := t.orders.filter fun o => o.ticket ≠ order }
  | .drop order => some { t with orders := t.orders.filter fun o => o.ticket ≠ order }

def reported : List ReportPosition := t.positions.rows.map fun p => ⟨p.ticket, p.symbol, p.volume, p.levels⟩

/-- A flat terminal without history. -/
def flat (market : Market) : NetBook := ⟨.empty, [], [], 0, market⟩

/-! ### What a fill does to the net volumes -/

section Fill

variable {t} {symbol symbol' : String} {side : Side} {volume order : ℕ} {levels : Levels}

theorem meet_symbol {p p' : NetPosition} (h : p.meet side volume order levels = some p') :
    p'.symbol = p.symbol := by
  unfold NetPosition.meet at h
  split_ifs at h <;> obtain rfl := Option.some.inj h <;> rfl

theorem filled_symbol {p : NetPosition} (h : t.filled symbol side volume order levels = some p) :
    p.symbol = symbol := by
  unfold filled at h
  split at h
  · split_ifs at h
    cases h
    rfl
  · next q hq => exact (meet_symbol h).trans (Table.find_eq_some hq).2

theorem find_fill : (t.fill symbol side volume order levels).positions.find symbol' =
    if symbol' = symbol then t.filled symbol side volume order levels else t.positions.find symbol' :=
  Table.find_put t.positions (fun _ h => filled_symbol h) symbol'

/-- The signed volume that a fill leaves. -/
theorem signed_meet (p : NetPosition) :
    ((p.meet side volume order levels).map NetPosition.signed).getD 0 = p.signed + signed side volume := by
  unfold NetPosition.meet
  by_cases hside : p.side = side
  · rw [if_pos hside, ← hside]
    exact signed_add p.side p.volume volume
  · rw [if_neg hside, eq_opposite hside, signed_opposite]
    split_ifs with hlt hgt
    · show signed p.side (p.volume - volume) = signed p.side p.volume + -signed p.side volume
      cases p.side <;> simp only [signed] <;> omega
    · show signed (Side.opposite p.side) (volume - p.volume) = signed p.side p.volume + -signed p.side volume
      rw [signed_opposite]
      cases p.side <;> simp only [signed] <;> omega
    · have heq : p.volume = volume := by omega
      simp [NetPosition.signed, heq]

/-- **A fill moves the net volume of its symbol by its own signed volume**, and no other. -/
theorem net_fill : (t.fill symbol side volume order levels).net symbol' =
    t.net symbol' + if symbol' = symbol then signed side volume else 0 := by
  unfold net
  rw [find_fill]
  by_cases hs : symbol' = symbol
  · subst hs
    rw [if_pos rfl, if_pos rfl]
    unfold filled
    cases t.positions.find symbol' with
    | none =>
      by_cases hv : 0 < volume
      · simp [hv, NetPosition.signed]
      · obtain rfl : volume = 0 := by omega
        simp
    | some p => exact signed_meet p
  · rw [if_neg hs, if_neg hs, add_zero]

theorem net_trade {t' : NetBook} {lots : ℕ} (h : t.trade symbol side lots levels = some t') :
    0 < t.market.fills lots ∧ t' = t.fill symbol side (t.market.fills lots) (t.lastTicket + 1) levels := by
  unfold trade at h
  simp only at h
  split_ifs at h with hz
  exact ⟨Nat.pos_of_ne_zero hz, (Option.some.inj h).symm⟩

/-- What a market order of a command does. -/
theorem doOpen_cases (t : NetBook) (specs : String → Option SymbolSpec) (symbol : String)
    (side : Side) (volume : ℕ)
    (levels : Levels) :
    (t.doOpen specs symbol side volume levels = (t, refused)) ∨
      ∃ spec v, specs symbol = some spec ∧ 0 < v ∧ v = t.market.fills (normalizeLots spec volume) ∧
        t.doOpen specs symbol side volume levels =
          (t.fill symbol side v (t.lastTicket + 1) levels,
            ⟨true, (t.filled symbol side v (t.lastTicket + 1) levels).map NetPosition.ticket,
              some (t.lastTicket + 1),
              some (t.lastTicket + 1), some v⟩) := by
  unfold doOpen
  cases hspec : specs symbol with
  | none => exact .inl rfl
  | some spec =>
    simp only
    by_cases hlots : normalizeLots spec volume = 0
    · rw [if_pos hlots]
      exact .inl rfl
    · rw [if_neg hlots]
      cases htrade : t.trade symbol side (normalizeLots spec volume) levels with
      | none => exact .inl rfl
      | some t' =>
        obtain ⟨hpos, rfl⟩ := net_trade htrade
        refine .inr ⟨spec, _, rfl, hpos, rfl, ?_⟩
        have hfind : (t.fill symbol side (t.market.fills (normalizeLots spec volume)) (t.lastTicket + 1)
            levels).positions.find symbol = t.filled symbol side (t.market.fills (normalizeLots spec volume))
              (t.lastTicket + 1) levels := by
          rw [find_fill, if_pos rfl]
        simp only [hfind]
        rfl

end Fill

end NetBook

/-- The terminal of a netting account whose symbols are `specs`. -/
def netTerminal (specs : String → Option SymbolSpec) : Terminal NetBook NetBook.Move where
  exec := NetBook.exec specs
  move := NetBook.move
  positions := NetBook.reported
  deals := NetBook.deals

/-- An exchange with the netting terminal of `account`. -/
def netConfig (server : ServerConfig) (account : ℕ) (specs : String → Option SymbolSpec) :
    ExchangeConfig NetBook NetBook.Move := ⟨server, account, netTerminal specs⟩

end Copier.Mt5
