import CopyTrading.Webhook.Verdicts

/-!
# Webhook.Aliased — a master whose broker has its own name for a symbol (`_master_broker_name`)

The book of an MT5 master carries the broker's names, an alert the canonical one.  The two meet in the account's
alias table, which `find_master_positions` takes as an argument; no call of it passes the alias.
-/

namespace Webhook

open Calls List

/-- `symbol_aliases` of the master: the broker's name of a canonical symbol (`_master_broker_name`). -/
abbrev Aliases := String → Option String

section Instrument

variable (aliases : Aliases) (symbol : String)

/-- The position is on the instrument, under either name. -/
def BookPosition.On (p : BookPosition) : Prop := p.symbol.any (named symbol (aliases symbol)) = true

def BookOrder.On (o : BookOrder) : Prop := o.symbol.any (named symbol (aliases symbol)) = true

/-- Every position and order of the book that is on the instrument has the canonical name. -/
structure Canonical (book : Book) : Prop where
  positions : ∀ p ∈ book.masterPositions, p.On aliases symbol → p.symbol.any (named symbol none) = true
  orders : ∀ o ∈ book.pendingOrders, o.On aliases symbol → o.symbol.any (named symbol none) = true

/-- Every call is answered, the reads by this book. -/
def Serves (book : Book) (s : ℕ → Outcome) : Prop := ∀ n, ∃ detail, copier (s n) = .ok ⟨book, detail⟩

/-- What the alerts on the instrument do when the master's book is `book`. -/
structure Guarded (master maxOpen : ℕ) (book : Book) : Prop where
  /-- Every position is closed. -/
  close : ∀ alert s, alert.symbol = symbol → alert.action = .close → Serves book s →
    ∀ p ∈ book.masterPositions, p.On aliases symbol →
      ∃ o, (Request.close master p.positionId, o) ∈ ((act master maxOpen alert).run s).1
  /-- Every resting order is cancelled. -/
  cancel : ∀ alert s, alert.symbol = symbol → alert.action = .cancel → Serves book s →
    ∀ r ∈ book.pendingOrders, r.On aliases symbol →
      ∃ o, (Request.cancel master r.orderId, o) ∈ ((act master maxOpen alert).run s).1
  /-- Nothing is bought while the master is short, nor sold while it is long. -/
  order : ∀ alert s reply side, alert.symbol = symbol →
    alert.action = (match side with | BookSide.buy => .buy | .sell => .sell) →
    copier (s 0) = .ok reply → reply.book = book →
    (∃ p ∈ book.masterPositions, p.On aliases symbol ∧ p.side = side.opposite) →
      ∀ x ∈ ((act master maxOpen alert).run s).1, ∀ o, x.1 ≠ .order o

end Instrument

section Requests

variable {master maxOpen : ℕ} {alert : Alert} {s : ℕ → Outcome} {book : Book} {symbol : String}
  {reads : List (Request × Outcome)}

theorem mem_findMasterPositions {p : BookPosition} {brokerName : Option String} :
    p ∈ findMasterPositions book symbol brokerName ↔
      p ∈ book.masterPositions ∧ p.symbol.any (named symbol brokerName) = true := by
  simp [findMasterPositions]

theorem mem_findResting {o : BookOrder} : o ∈ findResting book symbol ↔
      o ∈ book.pendingOrders ∧ upper (o.symbol.getD "").toList = upper symbol.toList := by
  simp [findResting]

/-- The log of the requests when every call succeeds. -/
theorem log_each {α : Type} {reading : Calls Request Outcome (Except Failure (List α))}
    {f : α → Request} {items : List α} (hrun : reading.run s = (reads, .ok items))
    (hs : Serves book s) : ((reading.attempt fun items => each f copier items).run s).1 =
      reads ++ logged f items fun j => s (reads.length + j) := by
  rw [run_attempt_ok (a := items) (by rw [hrun]), hrun]
  rcases run_each f copier items (fun j => s (reads.length + j)) with
    ⟨-, hlog⟩ | ⟨m, -, e, -, hfail, -⟩
  · simp only [hlog]
  · obtain ⟨detail, hok⟩ := hs (reads.length + m)
    rw [hok] at hfail
    cases hfail

/-- The request of an item is in the log, and every such request is an item's. -/
theorem mem_log_each {α : Type} {f : α → Request} {items : List α}
    {t : ℕ → Outcome} (hreads : ∀ x ∈ reads, x.1.isTrade = false) {q : Request} (hq : q.isTrade = true) :
    (∃ o, (q, o) ∈ reads ++ logged f items t) ↔ ∃ a ∈ items, f a = q := by
  constructor
  · rintro ⟨o, ho⟩
    rcases mem_append.1 ho with ho | ho
    · cases (hreads _ ho).symm.trans hq
    · obtain ⟨a, ha, j, -, he⟩ := mem_logged ho
      exact ⟨a, ha, (congrArg Prod.fst he).symm⟩
  · rintro ⟨a, ha, rfl⟩
    obtain ⟨o, ho⟩ := exists_logged f t ha
    exact ⟨o, mem_append_right _ ho⟩

/-- The reads of a close end with the positions that the book has under the alert's own name. -/
theorem run_held_serves (symbol : String) (hs : Serves book s) :
    ∃ reads, (held symbol).run s = (reads, .ok (findMasterPositions book symbol none)) ∧
      ∀ x ∈ reads, x.1.isTrade = false := by
  obtain ⟨d0, h0⟩ := hs 0
  obtain ⟨d1, h1⟩ := hs 1
  obtain ⟨d2, h2⟩ := hs 2
  rcases run_held symbol s with ⟨f, he, -⟩ | ⟨reply, f, -, -, he, -⟩ | ⟨-, f, he, -⟩ |
      ⟨-, reply, hr, hrun⟩ | ⟨reply, hr, -, hrun⟩
  · rw [h0] at he
    cases he
  · rw [resynced, h1] at he
    cases he
  · rw [h2] at he
    cases he
  · cases h2.symm.trans hr
    refine ⟨_, hrun, ?_⟩
    intro x hx
    simp only [mem_cons, not_mem_nil, or_false] at hx
    rcases hx with rfl | rfl | rfl <;> rfl
  · cases h0.symm.trans hr
    refine ⟨_, hrun, ?_⟩
    intro x hx
    obtain rfl := mem_singleton.1 hx
    rfl

/-- The positions that a close alert closes. -/
theorem closes_iff (ha : alert.action = .close) (hs : Serves book s) {p : ℕ} :
    (∃ o, (Request.close master p, o) ∈ ((act master maxOpen alert).run s).1) ↔
      ∃ q ∈ findMasterPositions book alert.symbol none, q.positionId = p := by
  obtain ⟨reads, hrun, hreads⟩ := run_held_serves alert.symbol hs
  have hlog : ((act master maxOpen alert).run s).1 = reads ++
      logged (fun p : BookPosition => Request.close master p.positionId)
        (findMasterPositions book alert.symbol none)
        fun j => s (reads.length + j) := by
    simp only [act, ha, close, run_bind, run_done, append_nil]
    exact log_each hrun hs
  rw [hlog, mem_log_each hreads rfl]
  simp only [Request.close.injEq, true_and]

/-- The orders that a cancel alert cancels. -/
theorem cancels_iff (ha : alert.action = .cancel) (hs : Serves book s) {w : ℕ} :
    (∃ o, (Request.cancel master w, o) ∈ ((act master maxOpen alert).run s).1) ↔
      ∃ q ∈ findResting book alert.symbol, q.orderId = w := by
  obtain ⟨detail, h0⟩ := hs 0
  have hrun : (resting alert.symbol).run s = ([(.state, s 0)], .ok (findResting book alert.symbol)) := by
    rw [resting, run_attempt_ok (a := ⟨book, detail⟩) (by rw [request, run_ask, h0])]
    rfl
  have hlog : ((act master maxOpen alert).run s).1 = [(.state, s 0)] ++
      logged (fun o : BookOrder => Request.cancel master o.orderId) (findResting book alert.symbol)
        fun j => s ([(Request.state, s 0)].length + j) := by
    simp only [act, ha, cancel, run_bind, run_done, append_nil]
    exact log_each hrun hs
  rw [hlog, mem_log_each (fun x hx => by rw [mem_singleton.1 hx]; rfl) rfl]
  simp only [Request.cancel.injEq, true_and]

/-- An order is placed only if the book that was read does not oppose it. -/
theorem order_unopposed (maxOpen : ℕ) {signal : Signal} {reply : Reply} (h0 : copier (s 0) = .ok reply)
    (hopp : signal.opposes reply.book = true) :
    ∀ x ∈ (((place maxOpen signal).bind fun r => .done (placedVerdict r)).run s).1, ∀ o, x.1 ≠ .order o := by
  simp only [run_bind, run_done, append_nil]
  rcases run_place maxOpen signal s with ⟨f, -, hrun⟩ | ⟨-, reason, -, hrun⟩ | ⟨reply', h0', hno, -⟩
  · rw [hrun]
    intro x hx o
    rw [mem_singleton.1 hx]
    exact nofun
  · rw [hrun]
    intro x hx o
    rw [mem_singleton.1 hx]
    exact nofun
  · cases h0.symm.trans h0'
    cases hno.symm.trans hopp

end Requests

/-- **When the alerts treat an aliased instrument as one**: exactly when nothing of the book is under the broker's
own name. -/
theorem aliased_master_guarded (aliases : Aliases) (symbol : String) (master maxOpen : ℕ) (book : Book) :
    Guarded aliases symbol master maxOpen book ↔ Canonical aliases symbol book := by
  let served : ℕ → Outcome := fun _ => .answered 200 ⟨book, ""⟩ true
  have hserved : Serves book served := fun n => ⟨"", rfl⟩
  constructor
  · intro h
    refine ⟨fun p hp hon => ?_, fun r hr hon => ?_⟩
    · have hclosed := h.close ⟨.close, symbol, none, none, none, "", .market, none⟩ served rfl rfl hserved p hp hon
      rw [closes_iff rfl hserved] at hclosed
      obtain ⟨q, hq, he⟩ := hclosed
      obtain ⟨hqm, hname⟩ := mem_findMasterPositions.1 hq
      obtain rfl := inj_on_of_nodup_map book.positionIds hqm hp he
      exact hname
    · have hcancelled := h.cancel ⟨.cancel, symbol, none, none, none, "", .market, none⟩ served rfl rfl
        hserved r hr hon
      rw [cancels_iff rfl hserved] at hcancelled
      obtain ⟨q, hq, he⟩ := hcancelled
      obtain ⟨hqm, hname⟩ := mem_findResting.1 hq
      obtain rfl := inj_on_of_nodup_map book.orderIds hqm hr he
      cases hs : q.symbol with
      | none =>
        rw [BookOrder.On, hs] at hon
        cases hon
      | some name =>
        rw [hs] at hname
        simpa [named] using hname
  · intro h
    refine ⟨?_, ?_, ?_⟩
    · rintro alert s rfl ha hs p hp hon
      rw [closes_iff ha hs]
      exact ⟨p, mem_findMasterPositions.2 ⟨hp, h.positions p hp hon⟩, rfl⟩
    · rintro alert s rfl ha hs r hr hon
      rw [cancels_iff ha hs]
      have hname := h.orders r hr hon
      refine ⟨r, mem_findResting.2 ⟨hr, ?_⟩, rfl⟩
      cases hsym : r.symbol with
      | none =>
        rw [hsym] at hname
        cases hname
      | some name =>
        rw [hsym] at hname
        simpa [named] using hname
    · rintro alert s reply side rfl ha h0 rfl ⟨p, hp, hon, hside⟩
      have hopp : (alert.signal master side (alert.lots.getD 0)).opposes reply.book = true := by
        simp only [Alert.signal, any_eq_true, decide_eq_true_eq]
        exact ⟨p, mem_findMasterPositions.2 ⟨hp, h.positions p hp hon⟩, hside⟩
      have key := order_unopposed maxOpen h0 hopp
      cases side with
      | buy | sell => simpa only [act, ha] using key

/-- The broker's name of gold. -/
def sampleAliases : Aliases := fun symbol => if symbol = "XAUUSD" then some "XAUUSDm" else none

/-- A long position and a resting order under the broker's name. -/
def sampleAliased : Book :=
  ⟨[⟨7, some "XAUUSDm", .buy⟩], [⟨9, some "XAUUSDm", some .buy⟩], by decide, by decide⟩

def sampleServed : ℕ → Outcome := fun _ => .answered 200 ⟨sampleAliased, ""⟩ true

/-- Under the broker's name nothing is closed or cancelled, and the master sells while it is long. -/
theorem aliased_master_unguarded :
    ¬ Guarded sampleAliases "XAUUSD" 1 3 sampleAliased ∧
    ((act 1 3 ⟨.close, "XAUUSD", none, none, none, "1", .market, none⟩).run sampleServed).2.outcome =
      .nothingToClose ∧
    ((act 1 3 ⟨.cancel, "XAUUSD", none, none, none, "1", .market, none⟩).run sampleServed).2.outcome =
      .nothingToCancel ∧
    (((act 1 3 ⟨.sell, "XAUUSD", some 1, none, none, "1", .market, none⟩).run sampleServed).1.any
      fun x => x.1.isTrade) = true := by
  refine ⟨fun h => ?_, by decide, by decide, by decide⟩
  have hno := h.order ⟨.sell, "XAUUSD", some 1, none, none, "1", .market, none⟩ sampleServed
    ⟨sampleAliased, ""⟩ .sell
    rfl rfl rfl rfl ⟨⟨7, some "XAUUSDm", .buy⟩, mem_singleton.2 rfl,
      by unfold BookPosition.On; decide, rfl⟩
  exact hno (.order ⟨1, "XAUUSD", .sell, .market, 1, none, none, none, none⟩, sampleServed 1) (by decide) _ rfl

end Webhook
