import CopyTrading.Copier.Normalize
import CopyTrading.Lib.Machine

/-!
# Copier.Replay — the master's book and what the normalised events say of it

`Book` is what the broker keeps for the master account; `Book.apply` says which execution events it can
send and what they change.  `Replay` follows the normalised events.  The two agree on the open positions
as long as no protection order fills and no order of an unknown type opens: those fills are dropped.
-/

namespace Copier

open Function

variable {evt : ExecutionEvent}

/-! ### The broker -/

/-- The working orders of the account and the volumes of its positions (0: not open). -/
structure Book where
  orders : ℕ → Option OrderType
  positions : ℕ → ℕ

namespace Book

def empty : Book := ⟨fun _ => none, fun _ => 0⟩

/-- The book without the order, once it has filled in full. -/
def afterFill (b : Book) (evt : ExecutionEvent) : ℕ → Option OrderType :=
  if evt.executionType = .orderFilled then Function.update b.orders evt.order.orderId none else b.orders

/-- The book after an event, `none` if the broker cannot send it there.  A working order fills in part
or in full; a fill opens (adds to) a position or, with `closePositionDetail`, closes part or all of one,
and the event carries the position as it is afterwards.  Protection orders only close. -/
def apply (b : Book) (evt : ExecutionEvent) : Option Book :=
  match evt.executionType with
  | .orderAccepted =>
    if b.orders evt.order.orderId = none ∧ 0 < evt.order.volume then
      some { b with orders := Function.update b.orders evt.order.orderId (some evt.order.orderType) }
    else none
  | .orderReplaced =>
    if b.orders evt.order.orderId = some evt.order.orderType ∧ 0 < evt.order.volume then some b else none
  | .orderCancelled =>
    if b.orders evt.order.orderId = some evt.order.orderType then
      some { b with orders := Function.update b.orders evt.order.orderId none }
    else none
  | .orderExpired =>
    if b.orders evt.order.orderId = some evt.order.orderType then
      some { b with orders := Function.update b.orders evt.order.orderId none }
    else none
  | .orderFilled => fill b evt
  | .orderPartialFill => fill b evt
  | _ => some b
where
  fill (b : Book) (evt : ExecutionEvent) : Option Book :=
    let p := evt.deal.positionId
    if b.orders evt.order.orderId = some evt.order.orderType ∧ 0 < evt.deal.filledVolume then
      match evt.deal.closePositionDetail with
      | none =>
        if evt.order.orderType ≠ .stopLossTakeProfit ∧
            evt.position.volume = b.positions p + evt.deal.filledVolume then
          some ⟨b.afterFill evt, Function.update b.positions p evt.position.volume⟩
        else none
      | some k =>
        if 0 < k ∧ b.positions p = k + evt.position.volume then
          some ⟨b.afterFill evt, Function.update b.positions p evt.position.volume⟩
        else none
    else none

end Book

/-- Everything an event can do to the book. -/
inductive Book.Next (b : Book) (evt : ExecutionEvent) : Book → Prop
  | accepted (h : evt.executionType = .orderAccepted) (hv : 0 < evt.order.volume) :
      Next b evt { b with orders := Function.update b.orders evt.order.orderId (some evt.order.orderType) }
  | replaced (h : evt.executionType = .orderReplaced) (hv : 0 < evt.order.volume) : Next b evt b
  | removed (h : evt.executionType = .orderCancelled ∨ evt.executionType = .orderExpired) :
      Next b evt { b with orders := Function.update b.orders evt.order.orderId none }
  | opened (hf : evt.isFill) (ho : b.orders evt.order.orderId = some evt.order.orderType)
      (hd : evt.deal.closePositionDetail = none) (hv : 0 < evt.deal.filledVolume)
      (hp : evt.position.volume = b.positions evt.deal.positionId + evt.deal.filledVolume) :
      Next b evt
        ⟨b.afterFill evt, Function.update b.positions evt.deal.positionId evt.position.volume⟩
  | closed (k : ℕ) (hf : evt.isFill) (hd : evt.deal.closePositionDetail = some k)
      (hp : b.positions evt.deal.positionId = k + evt.position.volume) :
      Next b evt
        ⟨b.afterFill evt, Function.update b.positions evt.deal.positionId evt.position.volume⟩
  | other (hf : evt.isFill = false) (ha : evt.executionType ≠ .orderAccepted)
      (hr : evt.executionType ≠ .orderReplaced) : Next b evt b

theorem Book.fill_cases {b b' : Book} (hf : evt.isFill)
    (h : Book.apply.fill b evt = some b') : b.Next evt b' := by
  unfold apply.fill at h
  simp only at h
  by_cases ho : b.orders evt.order.orderId = some evt.order.orderType ∧ 0 < evt.deal.filledVolume
  · rw [if_pos ho] at h
    cases hd : evt.deal.closePositionDetail with
    | none =>
      simp only [hd] at h
      split_ifs at h with hp
      cases h
      exact .opened hf ho.1 hd ho.2 hp.2
    | some k =>
      simp only [hd] at h
      split_ifs at h with hp
      cases h
      exact .closed k hf hd hp.2
  · rw [if_neg ho] at h
    simp at h

theorem Book.apply_cases {b b' : Book} (h : b.apply evt = some b') : b.Next evt b' := by
  unfold apply at h
  cases ht : evt.executionType with
  | orderAccepted =>
    simp only [ht] at h
    split_ifs at h with hc
    cases h
    exact .accepted ht hc.2
  | orderReplaced =>
    simp only [ht] at h
    split_ifs at h with hc
    cases h
    exact .replaced ht hc.2
  | orderCancelled =>
    simp only [ht] at h
    split_ifs at h with hc
    cases h
    exact .removed (.inl ht)
  | orderExpired =>
    simp only [ht] at h
    split_ifs at h with hc
    cases h
    exact .removed (.inr ht)
  | orderFilled | orderPartialFill =>
    simp only [ht] at h
    exact fill_cases (by simp [ExecutionEvent.isFill, ht]) h
  | _ =>
    simp only [ht] at h
    cases h
    exact .other (by simp [ExecutionEvent.isFill, ht]) (by simp [ht]) (by simp [ht])

/-! ### The replay -/

/-- What the normalised events say: volumes of positions (0: not open) and of placed orders. -/
structure Replay where
  positions : ℕ → ℕ
  orders : ℕ → ℕ

namespace Replay

def empty : Replay := ⟨fun _ => 0, fun _ => 0⟩

/-- An open adds its volume, a filled order starts its position, a close states the remainder. -/
def apply (r : Replay) : MasterEvent → Replay
  | .positionOpened e =>
    { r with positions := Function.update r.positions e.positionId (r.positions e.positionId + e.volume) }
  | .pendingFilled o p =>
    if r.positions p = 0 then { r with positions := Function.update r.positions p (r.orders o) } else r
  | .positionClosed e =>
    { r with positions := Function.update r.positions e.positionId e.remainingVolume }
  | .pendingPlaced e => { r with orders := Function.update r.orders e.orderId e.volume }
  | .pendingReplaced e => { r with orders := Function.update r.orders e.orderId e.volume }
  | _ => r

end Replay

/-- The replay after an execution event: dropped events change nothing. -/
def Replay.follow (r : Replay) (symbolsById : ℕ → Option MasterSymbol) (evt : ExecutionEvent) : Replay :=
  ((normalize evt symbolsById).map r.apply).getD r

/-- The broker's book and the replay of the events normalised so far. -/
structure Desk where
  book : Book
  replay : Replay

/-- Neither side has seen an event. -/
def Desk.init : Desk := ⟨.empty, .empty⟩

/-- The broker sends an event on a known symbol. -/
def Desk.fire (symbolsById : ℕ → Option MasterSymbol) (evt : ExecutionEvent) (d : Desk) : Option Desk :=
  if (symbolsById evt.order.symbolId).isSome then
    (d.book.apply evt).map fun b => ⟨b, d.replay.follow symbolsById evt⟩
  else none

/-- The replay has the broker's open positions. -/
def Desk.Agrees (d : Desk) : Prop := ∀ p, 0 < d.replay.positions p ↔ 0 < d.book.positions p

/-- Not a fill of a protection order, nor an opening fill of an order other than market, market range,
limit and stop. -/
def ExecutionEvent.Copied (evt : ExecutionEvent) : Prop :=
  evt.isFill → evt.order.orderType ≠ .stopLossTakeProfit ∧
    (evt.deal.closePositionDetail = none → evt.order.orderType ≠ .stopLimit)

instance (evt : ExecutionEvent) : Decidable evt.Copied := inferInstanceAs (Decidable (_ → _))

/-- A fill yields its event: an opening fill an open or a filled order of the position, a closing fill a
close that states what the broker has left. -/
def ExecutionEvent.Yields (symbolsById : ℕ → Option MasterSymbol) (evt : ExecutionEvent) (b : Book) :
    Prop :=
  evt.isFill → match evt.deal.closePositionDetail with
    | none => (∃ e, normalize evt symbolsById = some (.positionOpened e) ∧
        e.positionId = evt.deal.positionId ∧ e.volume = evt.deal.filledVolume) ∨
        normalize evt symbolsById = some (.pendingFilled evt.order.orderId evt.deal.positionId)
    | some k => ∃ e, normalize evt symbolsById = some (.positionClosed e) ∧
        e.positionId = evt.deal.positionId ∧ e.closedVolume = k ∧
        e.remainingVolume = b.positions evt.deal.positionId

/-- The open positions agree, and the volumes of working pending orders are known. -/
structure Desk.Synced (d : Desk) : Prop where
  agrees : d.Agrees
  orders : ∀ o t, d.book.orders o = some t → t.pending ≠ none → 0 < d.replay.orders o

section Steps

variable {symbolsById : ℕ → Option MasterSymbol} {evt : ExecutionEvent} {d d' : Desk} {b : Book}
  {sym : MasterSymbol}

theorem Desk.Synced.init : Desk.init.Synced where
  agrees p := Iff.rfl
  orders o t h := absurd h (by simp [Desk.init, Book.empty])

theorem normalizeFill_opening (sym : MasterSymbol) (hd : evt.deal.closePositionDetail = none)
    (ht : evt.order.orderType ≠ .stopLossTakeProfit) (hl : evt.order.orderType ≠ .stopLimit) :
    (evt.order.orderType.pending = none ∧ normalizeFill evt sym = some (normalizeFill.opened evt sym)) ∨
      evt.order.orderType.pending ≠ none ∧
        normalizeFill evt sym = some (.pendingFilled evt.order.orderId evt.deal.positionId) := by
  unfold normalizeFill
  rw [hd]
  cases ho : evt.order.orderType with
  | market | marketRange => exact .inl ⟨rfl, rfl⟩
  | limit | stop => exact .inr ⟨by simp [OrderType.pending], rfl⟩
  | stopLossTakeProfit => exact absurd ho ht
  | stopLimit => exact absurd ho hl

/-- **Every fill that is copied yields its event.** -/
theorem yields_of_copied (hs : symbolsById evt.order.symbolId = some sym) (hc : evt.Copied)
    (hn : d.book.Next evt b) : evt.Yields symbolsById b := by
  intro hf
  obtain ⟨ht, hl⟩ := hc hf
  rw [normalize_fill hs hf ht]
  cases hd : evt.deal.closePositionDetail with
  | none =>
    rcases normalizeFill_opening sym hd ht (hl hd) with ⟨-, h⟩ | ⟨-, h⟩
    · exact .inl ⟨_, h, rfl, rfl⟩
    · exact .inr h
  | some k =>
    refine ⟨⟨evt.deal.positionId, sym.name, k, evt.position.volume⟩, ?_, rfl, rfl, ?_⟩
    · simp [normalizeFill, hd]
    · cases hn with
      | closed k' hf' hd' hp => simp
      | opened hf' ho hd' hv hp =>
        rw [hd] at hd'
        simp at hd'
      | accepted h hv | replaced h hv => simp [ExecutionEvent.isFill, h] at hf
      | removed h => rcases h with h | h <;> simp [ExecutionEvent.isFill, h] at hf
      | other h ha hr =>
        rw [hf] at h
        simp at h

/-- An event that trades nothing leaves the positions. -/
theorem Replay.positions_apply (r : Replay) {e : MasterEvent} (h : e.isTrade = false) :
    (r.apply e).positions = r.positions := by
  cases e with
  | positionOpened e | positionClosed e | pendingFilled o p => simp [MasterEvent.isTrade] at h
  | _ => rfl

theorem Replay.orders_apply (r : Replay) (e : MasterEvent) :
    (r.apply e).orders = match e.orderVolume with
      | some (o, v) => Function.update r.orders o v
      | none => r.orders := by
  cases e with
  | pendingFilled o p =>
    simp only [apply]
    split_ifs <;> rfl
  | _ => rfl

section Follow

variable (r : Replay) (symbolsById)

/-- What an event that fills nothing does to the replay. -/
theorem follow_unfilled (hf : evt.isFill = false) :
    (r.follow symbolsById evt).positions = r.positions ∧
      ∀ o, (r.follow symbolsById evt).orders o = r.orders o ∨
        (r.follow symbolsById evt).orders o = evt.order.volume ∧
          (evt.executionType = .orderAccepted ∨ evt.executionType = .orderReplaced) := by
  unfold Replay.follow
  cases he : normalize evt symbolsById with
  | none => exact ⟨rfl, fun o => .inl rfl⟩
  | some e =>
    obtain ⟨htrade, hvol⟩ := normalize_untraded hf he
    refine ⟨r.positions_apply htrade, fun o => ?_⟩
    show (r.apply e).orders o = _ ∨ (r.apply e).orders o = _ ∧ _
    rw [r.orders_apply]
    rcases hvol with hv | ⟨hv, hex⟩
    · rw [hv]
      exact .inl rfl
    · rw [hv]
      by_cases ho : o = evt.order.orderId
      · subst ho
        simp only [update_self]
        exact .inr ⟨trivial, hex⟩
      · simp only [update_of_ne ho]
        exact .inl trivial

variable {symbolsById}

section

variable (hs : symbolsById evt.order.symbolId = some sym)
include hs

/-- An accepted pending order's volume is known from then on. -/
theorem follow_accepted
    (he : evt.executionType = .orderAccepted) (ht : evt.order.orderType.pending ≠ none) :
    (r.follow symbolsById evt).orders evt.order.orderId = evt.order.volume := by
  obtain ⟨t, ht⟩ := Option.ne_none_iff_exists'.1 ht
  rw [Replay.follow, normalize_pending hs (by simp [ExecutionEvent.isFill, he]) (by simp [he]) ht]
  simp [normalizePending, he, Replay.apply]

/-- An opening fill opens its position and no other. -/
theorem follow_opened (hc : evt.Copied)
    (hf : evt.isFill) (hd : evt.deal.closePositionDetail = none) (hv : 0 < evt.deal.filledVolume)
    (ho : evt.order.orderType.pending ≠ none → 0 < r.orders evt.order.orderId) :
    (∀ p, 0 < (r.follow symbolsById evt).positions p ↔
      p = evt.deal.positionId ∨ 0 < r.positions p) ∧
      (r.follow symbolsById evt).orders = r.orders := by
  obtain ⟨ht, hl⟩ := hc hf
  have hupdate : ∀ v p, 0 < v → (0 < update r.positions evt.deal.positionId v p ↔
      p = evt.deal.positionId ∨ 0 < r.positions p) := by
    intro v p hv
    by_cases hp : p = evt.deal.positionId
    · subst hp
      simpa using hv
    · simp [hp]
  rw [Replay.follow, normalize_fill hs hf ht]
  rcases normalizeFill_opening sym hd ht (hl hd) with ⟨-, h⟩ | ⟨hpend, h⟩
  · rw [h]
    exact ⟨fun p => hupdate _ p (Nat.add_pos_right _ hv), rfl⟩
  · rw [h]
    simp only [Option.map_some, Option.getD_some, Replay.apply]
    split_ifs with h0
    · exact ⟨fun p => hupdate _ p (ho hpend), rfl⟩
    · refine ⟨fun p => ⟨.inr, ?_⟩, rfl⟩
      rintro (rfl | hp)
      · omega
      · exact hp

theorem follow_closed {k : ℕ} (hc : evt.Copied)
    (hf : evt.isFill) (hd : evt.deal.closePositionDetail = some k) : r.follow symbolsById evt =
      { r with positions := Function.update r.positions evt.deal.positionId evt.position.volume } := by
  rw [Replay.follow, normalize_fill hs hf (hc hf).1]
  simp [normalizeFill, hd, Replay.apply]

end

end Follow

theorem Book.afterFill_some {b : Book} {o : ℕ} {t : OrderType} (h : b.afterFill evt o = some t) :
    b.orders o = some t := by
  unfold afterFill at h
  split_ifs at h
  · simp only [update_apply] at h
    split_ifs at h
    exact h
  · exact h

/-- An event that fills nothing, of a book that keeps its positions. -/
theorem Desk.Synced.unfilled (h : d.Synced) (hf : evt.isFill = false)
    (hpos : b.positions = d.book.positions)
    (hvol : evt.executionType = .orderAccepted ∨ evt.executionType = .orderReplaced →
      0 < evt.order.volume)
    (hord : ∀ o t, b.orders o = some t → t.pending ≠ none →
      d.book.orders o = some t ∨ 0 < (d.replay.follow symbolsById evt).orders o) :
    Desk.Synced ⟨b, d.replay.follow symbolsById evt⟩ := by
  obtain ⟨hsame, horders⟩ := follow_unfilled symbolsById d.replay hf
  constructor
  · intro p
    show 0 < (d.replay.follow symbolsById evt).positions p ↔ 0 < b.positions p
    rw [hsame, hpos]
    exact h.agrees p
  · intro o t ho ht
    show 0 < (d.replay.follow symbolsById evt).orders o
    rcases hord o t ho ht with hold | hnew
    · rcases horders o with he | ⟨he, hex⟩
      · rw [he]
        exact h.orders o t hold ht
      · rw [he]
        exact hvol hex
    · exact hnew

/-- **The replay stays in step with the book.** -/
theorem Desk.Synced.step (h : d.Synced) (hc : evt.Copied) (hs : symbolsById evt.order.symbolId = some sym)
    (hn : d.book.Next evt b) : Desk.Synced ⟨b, d.replay.follow symbolsById evt⟩ := by
  cases hn with
  | accepted hex hv =>
    refine h.unfilled (by simp [ExecutionEvent.isFill, hex]) rfl (fun _ => hv) fun o t ho ht => ?_
    simp only [update_apply] at ho
    split_ifs at ho with hoid
    · right
      cases ho
      rw [hoid, follow_accepted d.replay hs hex ht]
      exact hv
    · exact .inl ho
  | replaced hex hv =>
    exact h.unfilled (by simp [ExecutionEvent.isFill, hex]) rfl (fun _ => hv) fun o t ho ht => .inl ho
  | removed hex =>
    have hf : evt.isFill = false := by rcases hex with hex | hex <;> simp [ExecutionEvent.isFill, hex]
    refine h.unfilled hf rfl (fun hor => ?_) fun o t ho ht => ?_
    · rcases hex with hex | hex <;> simp [hex] at hor
    · simp only [update_apply] at ho
      split_ifs at ho
      exact .inl ho
  | opened hfill ho hd hv hp =>
    obtain ⟨hpos, hord⟩ := follow_opened d.replay hs hc hfill hd hv fun ht => h.orders _ _ ho ht
    refine ⟨fun p => (hpos p).trans ?_, fun o t ho' ht => ?_⟩
    · by_cases hpid : p = evt.deal.positionId
      · subst hpid
        simp only [update_self, true_or, true_iff]
        omega
      · simp only [update_of_ne hpid, hpid, false_or]
        exact h.agrees p
    · show 0 < (d.replay.follow symbolsById evt).orders o
      rw [hord]
      exact h.orders o t (Book.afterFill_some ho') ht
  | closed k hfill hd hp =>
    rw [follow_closed d.replay hs hc hfill hd]
    refine ⟨fun p => ?_, fun o t ho' ht => h.orders o t (Book.afterFill_some ho') ht⟩
    by_cases hpid : p = evt.deal.positionId
    · subst hpid
      simp only [update_self]
    · simp only [update_of_ne hpid]
      exact h.agrees p
  | other hf ha hr =>
    refine h.unfilled hf rfl (fun hor => ?_) fun o t ho ht => .inl ho
    rcases hor with hor | hor
    · exact absurd hor ha
    · exact absurd hor hr

/-- What firing an event means. -/
theorem Desk.fire_cases (h : Desk.fire symbolsById evt d = some d') :
    ∃ sym, symbolsById evt.order.symbolId = some sym ∧ d.book.Next evt d'.book ∧
      d' = ⟨d'.book, d.replay.follow symbolsById evt⟩ := by
  unfold Desk.fire at h
  split_ifs at h with hsome
  obtain ⟨sym, hs⟩ := Option.isSome_iff_exists.1 hsome
  obtain ⟨b, hb, rfl⟩ := Option.map_eq_some_iff.1 h
  exact ⟨sym, hs, Book.apply_cases hb, rfl⟩

/-- **No position change is lost** in any sequence of events without fills of protection orders and
without opening fills of stop-limit orders: every state replays to the broker's open positions, and every
further fill yields its event. -/
theorem normalize_loses_no_position
    (h : Machine.Run (Desk.fire symbolsById) (fun evt _ => evt.Copied) Desk.init d) :
    d.Agrees ∧ ∀ evt d', evt.Copied → Desk.fire symbolsById evt d = some d' →
      evt.Yields symbolsById d'.book := by
  have hsync : d.Synced := by
    refine Machine.Run.invariant (P := Desk.Synced) h Desk.Synced.init ?_
    intro evt t u hok ht hf
    obtain ⟨sym, hs, hn, hu⟩ := Desk.fire_cases hf
    rw [hu]
    exact ht.step hok hs hn
  refine ⟨hsync.agrees, fun evt d' hc hf => ?_⟩
  obtain ⟨sym, hs, hn, -⟩ := Desk.fire_cases hf
  exact yields_of_copied hs hc hn

/-! ### Sample events -/

/-- An event of order `o` on the one symbol of the sample. -/
def sampleExecution (t : ExecutionType) (o : ℕ) (type : OrderType) (p volume filled : ℕ)
    (closes : Option ℕ) : ExecutionEvent :=
  ⟨t, "", ⟨o, type, 1, .buy, 100, 0, 0, 0, 0, none⟩, ⟨p, volume, none, none, none⟩,
    ⟨p, filled, closes, none⟩⟩

def sampleSymbols : ℕ → Option MasterSymbol := fun _ => some ⟨"EURUSD", 100⟩

theorem normalize_loses_no_position_sample :
    ∃ d, Machine.Run (Desk.fire sampleSymbols) (fun evt _ => evt.Copied) Desk.init d ∧
      d.book.positions 5 = 60 ∧ d.Agrees ∧
      ∀ evt d', evt.Copied → Desk.fire sampleSymbols evt d = some d' →
        evt.Yields sampleSymbols d'.book := by
  refine Machine.exists_run_and [sampleExecution .orderAccepted 8 .limit 5 0 0 none,
    sampleExecution .orderFilled 8 .limit 5 100 100 none, sampleExecution .orderAccepted 9 .market 5 100 0 none,
    sampleExecution .orderFilled 9 .market 5 60 40 (some 40)] Desk.init ?_
  intro d hrun _
  exact normalize_loses_no_position hrun

/-- A stop that is hit empties position 5 and no event says so; a stop-limit order opens position 6 and
no event says so. -/
theorem fills_are_dropped :
    (∃ d, Machine.Run (Desk.fire sampleSymbols) (fun _ _ => True) Desk.init d ∧
      (d.book.positions 5 = 0 ∧ d.replay.positions 5 = 100)) ∧
    ∃ d, Machine.Run (Desk.fire sampleSymbols) (fun _ _ => True) Desk.init d ∧
      (d.book.positions 6 = 100 ∧ d.replay.positions 6 = 0) := by
  constructor
  · exact Machine.exists_run [sampleExecution .orderAccepted 8 .market 5 0 0 none,
        sampleExecution .orderFilled 8 .market 5 100 100 none,
        sampleExecution .orderAccepted 9 .stopLossTakeProfit 5 100 0 none,
        sampleExecution .orderFilled 9 .stopLossTakeProfit 5 0 100 (some 100)] Desk.init
      (by decide)
  · exact Machine.exists_run [sampleExecution .orderAccepted 8 .stopLimit 6 0 0 none,
        sampleExecution .orderFilled 8 .stopLimit 6 100 100 none] Desk.init (by decide)

end Steps

end Copier
