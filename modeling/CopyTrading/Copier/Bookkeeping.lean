import CopyTrading.Copier.Broker
import CopyTrading.Copier.Dispatched

/-!
# Copier.Bookkeeping — the mappings follow the brokers

Reports act on each row alone, so the row a copy *will* have once the reports in flight are handled
is a fold over them (`settle`).  The invariant: that row says exactly what the broker holds
(`Stage`).  Handling a report leaves the settled row as it is, executing a request moves both sides
together, and a master event only adds rows that nothing has happened to.
-/

namespace Copier

open List Option Table Mapping Account

/-! ### Rows under reports -/

/-- The row once the reports are handled. -/
def settle (a : ℕ) (rs : List Report) (m : Mapping) : Mapping :=
  rs.foldl (fun m r => bookRow a r m) m

/-- The client order id a report names. -/
def Report.names : Report → Option ClientOrderId
  | .accepted c _ => c
  | .filled fill => fill.clientOrderId
  | .cancelled _ => none

section Row

variable {a : ℕ} {r : Report} {m : Mapping} {rs : List Report}

@[simp] theorem settle_nil : settle a [] m = m := rfl

@[simp] theorem settle_cons : settle a (r :: rs) m = settle a rs (bookRow a r m) := rfl

@[simp] theorem settle_snoc : settle a (rs ++ [r]) m = bookRow a r (settle a rs m) := by
  simp [settle, foldl_append]

/-- A report writes only the slave's columns. -/
theorem sets_keeps (r : Report) (m : Mapping) :
    ∃ ω h st, r.sets m = { m with slaveOrderId := ω, held := h, status := st } := by
  cases r with
  | accepted c ω => exact ⟨some ω, m.held, .active, rfl⟩
  | cancelled ω => exact ⟨m.slaveOrderId, m.held, .closed, rfl⟩
  | filled fill =>
    simp only [Report.sets]
    cases fill.closedVolume with
    | some k => exact ⟨m.slaveOrderId, _, _, rfl⟩
    | none =>
      cases fill.pinned with
      | some c | none => exact ⟨m.slaveOrderId, _, _, rfl⟩

theorem bookRow_keeps (a : ℕ) (r : Report) (m : Mapping) :
    ∃ ω h st, bookRow a r m = { m with slaveOrderId := ω, held := h, status := st } := by
  unfold bookRow
  split_ifs
  · exact sets_keeps r m
  · exact ⟨m.slaveOrderId, m.held, m.status, rfl⟩

@[simp] theorem bookRow_clientOrderId : (bookRow a r m).clientOrderId = m.clientOrderId := by
  obtain ⟨ω, h, st, he⟩ := bookRow_keeps a r m
  rw [he]

@[simp] theorem bookRow_slaveAccountId : (bookRow a r m).slaveAccountId = m.slaveAccountId := by
  obtain ⟨ω, h, st, he⟩ := bookRow_keeps a r m
  rw [he]

@[simp] theorem bookRow_masterPositionId : (bookRow a r m).masterPositionId = m.masterPositionId := by
  obtain ⟨ω, h, st, he⟩ := bookRow_keeps a r m
  rw [he]

@[simp] theorem bookRow_masterOrderId : (bookRow a r m).masterOrderId = m.masterOrderId := by
  obtain ⟨ω, h, st, he⟩ := bookRow_keeps a r m
  rw [he]

theorem sets_link (q : Option ℕ) :
    r.sets { m with masterPositionId := q } = { r.sets m with masterPositionId := q } := by
  cases r with
  | accepted c ω | cancelled ω => rfl
  | filled fill =>
    simp only [Report.sets]
    cases fill.closedVolume with
    | some k => rfl
    | none =>
      cases fill.pinned with
      | some c | none => rfl

/-- Reports do not read the link. -/
theorem bookRow_link (q : Option ℕ) :
    bookRow a r { m with masterPositionId := q } = { bookRow a r m with masterPositionId := q } := by
  have hh : r.hits a { m with masterPositionId := q } = r.hits a m := rfl
  unfold bookRow
  rw [hh]
  by_cases h : r.hits a m
  · rw [if_pos h, if_pos h, sets_link]
  · rw [if_neg h, if_neg h]

theorem settle_link (rs : List Report) (q : Option ℕ) :
    settle a rs { m with masterPositionId := q } = { settle a rs m with masterPositionId := q } := by
  induction rs generalizing m with
  | nil => rfl
  | cons r rs ih => rw [settle_cons, settle_cons, bookRow_link, ih]

/-- A report hits rows of its own account. -/
theorem names_of_pinned {fill : SlaveFill} {c : ClientOrderId} (h : fill.pinned = some c) :
    fill.clientOrderId = some c := (filter_eq_some_iff.1 h).1

/-- A report hits rows of its account: the one it names, or one that was touched before. -/
theorem hits_cases (h : r.hits a m) :
    m.slaveAccountId = a ∧ (r.names = some m.clientOrderId ∨ m.status = .active ∨ m.slaveOrderId ≠ none) := by
  cases r with
  | accepted c ω =>
    match c with
    | some (.co o a') =>
      simp only [Report.hits, isCopy, Bool.and_eq_true, decide_eq_true_eq] at h
      exact ⟨h.2, .inl (congrArg some h.1.symm)⟩
    | some (.cm _ _) => simp [Report.hits] at h
    | some (.other _) => simp [Report.hits] at h
    | none => simp [Report.hits] at h
  | cancelled ω =>
    simp only [Report.hits, isOrder, Bool.and_eq_true, decide_eq_true_eq] at h
    exact ⟨h.1.1.1, .inr (.inr (by simp [h.1.2]))⟩
  | filled fill =>
    simp only [Report.hits] at h
    cases hk : fill.closedVolume with
    | some k =>
      simp only [hk, isReduced, Bool.and_eq_true, decide_eq_true_eq] at h
      exact ⟨h.1.1, .inr (.inl h.1.2)⟩
    | none =>
      cases hp : fill.pinned with
      | some c =>
        simp only [hk, hp, isCopy, Bool.and_eq_true, decide_eq_true_eq] at h
        exact ⟨h.2, .inl ((names_of_pinned hp).trans (congrArg some h.1.symm))⟩
      | none =>
        simp only [hk, hp, isOrder, Bool.and_eq_true, decide_eq_true_eq] at h
        exact ⟨h.1.1.1, .inr (.inr (isSome_iff_ne_none.1 h.1.1.2))⟩

theorem account_of_hits (h : r.hits a m) : m.slaveAccountId = a := (hits_cases h).1

theorem bookRow_of_ne (h : m.slaveAccountId ≠ a) : bookRow a r m = m :=
  if_neg fun hh => h (account_of_hits hh)

theorem names_of_hits (hm : m.Untouched) (h : r.hits a m) : r.names = some m.clientOrderId := by
  obtain ⟨hs, -, hω⟩ := hm
  rcases (hits_cases h).2 with hn | hactive | hne
  · exact hn
  · rw [hs] at hactive
    exact absurd hactive (by decide)
  · exact absurd hω hne

theorem bookRow_untouched (hm : m.Untouched) (hr : r.names ≠ some m.clientOrderId) :
    bookRow a r m = m := if_neg fun hh => hr (names_of_hits hm hh)

theorem settle_untouched (hm : m.Untouched)
    (hr : ∀ r ∈ rs, r.names ≠ some m.clientOrderId) : settle a rs m = m := by
  induction rs with
  | nil => rfl
  | cons r rs ih =>
    rw [settle_cons, bookRow_untouched hm (hr r mem_cons_self)]
    exact ih fun r' h => hr r' (mem_cons_of_mem r h)

end Row

/-! ### The invariant of an account -/

/-- Position `π` is the copy's. -/
def Account.HasPosition (x : Account) (c : ClientOrderId) (π : ℕ) : Prop :=
  ∃ q ∈ x.positions.rows, q.id = π ∧ q.clientOrderId = c

/-- Order `ω` is the copy's. -/
def Account.HasOrder (x : Account) (c : ClientOrderId) (ω : ℕ) : Prop :=
  ∃ q ∈ x.orders.rows, q.id = ω ∧ q.clientOrderId = c

/-- The ids in a row are the copy's. -/
structure Owned (x : Account) (c : ClientOrderId) (m : Mapping) : Prop where
  position : ∀ π, m.slavePositionId = some π → x.HasPosition c π
  order : ∀ ω, m.slaveOrderId = some ω → x.HasOrder c ω

/-- A report about copy `c`, as the broker writes it. -/
inductive About (x : Account) (c : ClientOrderId) : Report → Prop
  | market (π v : ℕ) (h : c.isMarketCopy) (hq : x.HasPosition c π) :
      About x c (Account.openFill c π v none)
  | pending (π v ω : ℕ) (h : c.isMarketCopy = false) (hq : x.HasPosition c π) (ho : x.HasOrder c ω) :
      About x c (Account.openFill c π v (some ω))
  | close (k π : ℕ) (hq : x.HasPosition c π) : About x c (Account.closeFill π k)
  | accepted (ω : ℕ) (ho : x.HasOrder c ω) : About x c (.accepted (some c) ω)
  | cancelled (ω : ℕ) (ho : x.HasOrder c ω) : About x c (.cancelled ω)

/-- The broker has no position and no order of the copy. -/
def Account.NoTrace (x : Account) (c : ClientOrderId) : Prop :=
  (∀ q ∈ x.positions.rows, q.clientOrderId ≠ c) ∧ ∀ q ∈ x.orders.rows, q.clientOrderId ≠ c

/-- The broker has one order of the copy, in status `st`, and no position. -/
structure Account.Only (x : Account) (c : ClientOrderId) (st : BrokerOrderStatus) (q : BrokerOrder) :
    Prop where
  mem : q ∈ x.orders.rows
  copy : q.clientOrderId = c
  status : q.status = st
  only : ∀ q' ∈ x.orders.rows, q'.clientOrderId = c → q' = q
  free : ∀ q' ∈ x.positions.rows, q'.clientOrderId ≠ c

/-- The broker's position of the copy: the others are emptied, the orders filled. -/
structure Account.Holds (x : Account) (c : ClientOrderId) (q : BrokerPosition) : Prop where
  mem : q ∈ x.positions.rows
  copy : q.clientOrderId = c
  others : ∀ q' ∈ x.positions.rows, q'.clientOrderId = c → q'.id ≠ q.id → q'.volume = 0
  filled : ∀ o ∈ x.orders.rows, o.clientOrderId = c → o.status = .filled

/-- A settled row says what the broker holds of the copy. -/
inductive Stage (x : Account) (c : ClientOrderId) (m : Mapping) : Prop
  | waiting (hm : m.Untouched) (hx : x.NoTrace c)
  | resting (q : BrokerOrder) (hq : x.Only c .resting q) (hs : m.status = .active)
      (hω : m.slaveOrderId = some q.id) (hh : m.held = none)
  | cancelled (q : BrokerOrder) (hq : x.Only c .cancelled q) (hs : m.status = .closed)
      (hω : m.slaveOrderId = some q.id) (hh : m.held = none)
  | held (q : BrokerPosition) (hq : x.Holds c q) (hh : m.held = some ⟨q.id, q.volume⟩)
      (hs : m.status = if q.volume = 0 then .closed else .active)
      (hω : ∀ ω, m.slaveOrderId = some ω → x.HasOrder c ω)

/-- Requests of account `a`: volumes that are sent are not 0. -/
def SlaveIntent.Wf (a : ℕ) (i : SlaveIntent) : Prop :=
  i.slaveAccountId = a ∧
    match i with
    | .openMarket i => 0 < i.volume
    | .placePending i => 0 < i.volume
    | .amendPending i => 0 < i.volume
    | _ => True

/-- The invariant of an account. -/
structure Booked (a : ℕ) (s : Mappings) (x : Account) : Prop where
  requests : ∀ i ∈ x.requests, i.Wf a
  named : ∀ i ∈ x.requests, ∀ c, clientOrderIdFor i = some c → (s.find c).isSome
  placing : ∀ i ∈ x.requests, ∀ c, i.places = some c → x.NoTrace c
  nodup : (x.requests.filterMap SlaveIntent.places).Nodup
  reports : ∀ r ∈ x.reports, ∃ c, About x c r ∧ (s.find c).isSome
  positions : ∀ q ∈ x.positions.rows, q.clientOrderId.account = some a ∧
    (s.find q.clientOrderId).isSome
  orders : ∀ q ∈ x.orders.rows, (∃ o, q.clientOrderId = .co o a) ∧ 0 < q.volume ∧
    (s.find q.clientOrderId).isSome
  owned : ∀ c m, c.account = some a → s.find c = some m → Owned x c m
  row : ∀ c m, c.account = some a → s.find c = some m → Stage x c (settle a x.reports m)

section Stage

variable {a : ℕ} {s s' : Mappings} {x x' : Account} {c : ClientOrderId} {m : Mapping}

section

variable (h : Stage x c m)
include h

/-- A stage depends on the copy's own positions and orders. -/
theorem Stage.congr
    (hp : ∀ q : BrokerPosition, q.clientOrderId = c →
      (q ∈ x'.positions.rows ↔ q ∈ x.positions.rows))
    (ho : ∀ q : BrokerOrder, q.clientOrderId = c → (q ∈ x'.orders.rows ↔ q ∈ x.orders.rows)) :
    Stage x' c m := by
  have hfree : ∀ {q : BrokerPosition}, (∀ q ∈ x.positions.rows, q.clientOrderId ≠ c) →
      q ∈ x'.positions.rows → q.clientOrderId ≠ c :=
    fun hf hq hc => hf _ ((hp _ hc).1 hq) hc
  cases h with
  | waiting hm hx =>
    exact .waiting hm ⟨fun q hq => hfree hx.1 hq, fun q hq hc => hx.2 q ((ho q hc).1 hq) hc⟩
  | resting q hq hs hω hh =>
    refine .resting q ⟨(ho q hq.copy).2 hq.mem, hq.copy, hq.status, ?_, fun q' h' => hfree hq.free h'⟩
      hs hω hh
    exact fun q' h' hc => hq.only q' ((ho q' hc).1 h') hc
  | cancelled q hq hs hω hh =>
    refine .cancelled q
      ⟨(ho q hq.copy).2 hq.mem, hq.copy, hq.status, ?_, fun q' h' => hfree hq.free h'⟩ hs hω hh
    exact fun q' h' hc => hq.only q' ((ho q' hc).1 h') hc
  | held q hq hh hs hω =>
    refine .held q ⟨(hp q hq.copy).2 hq.mem, hq.copy, ?_, ?_⟩ hh hs fun ω he => ?_
    · exact fun q' h' hc hne => hq.others q' ((hp q' hc).1 h') hc hne
    · exact fun o h' hc => hq.filled o ((ho o hc).1 h') hc
    · obtain ⟨o, hm, hid, hc⟩ := hω ω he
      exact ⟨o, (ho o hc).2 hm, hid, hc⟩

/-- The link is not part of a stage. -/
theorem Stage.link (q : Option ℕ) : Stage x c { m with masterPositionId := q } := by
  cases h with
  | waiting hm hx => exact .waiting hm hx
  | resting o ho hs hω hh => exact .resting o ho hs hω hh
  | cancelled o ho hs hω hh => exact .cancelled o ho hs hω hh
  | held o ho hh hs hω => exact .held o ho hh hs hω

/-- A position with volume is the one the row knows. -/
theorem Stage.of_volume {q : BrokerPosition} (hq : q ∈ x.positions.rows)
    (hc : q.clientOrderId = c) (hv : 0 < q.volume) :
    x.Holds c q ∧ m.held = some ⟨q.id, q.volume⟩ ∧ m.status = .active := by
  cases h with
  | waiting hm hx => exact absurd hc (hx.1 q hq)
  | resting o ho hs hω hh | cancelled o ho hs hω hh => exact absurd hc (ho.free q hq)
  | held q₀ hq₀ hh hs hω =>
    have hid : q.id = q₀.id := by
      by_contra hne
      have := hq₀.others q hq hc hne
      omega
    obtain rfl := eq_of_position_id hq hq₀.mem hid
    rw [if_neg (by omega)] at hs
    exact ⟨hq₀, hh, hs⟩

/-- An order that rests is the one the row knows. -/
theorem Stage.of_resting {q : BrokerOrder} (hq : q ∈ x.orders.rows)
    (hc : q.clientOrderId = c) (hs : q.status = .resting) :
    x.Only c .resting q ∧ m.status = .active ∧ m.slaveOrderId = some q.id ∧ m.held = none := by
  cases h with
  | waiting hm hx => exact absurd hc (hx.2 q hq)
  | resting q₀ hq₀ hs₀ hω hh =>
    obtain rfl := hq₀.only q hq hc
    exact ⟨hq₀, hs₀, hω, hh⟩
  | cancelled q₀ hq₀ hs₀ hω hh =>
    obtain rfl := hq₀.only q hq hc
    have := hq₀.status
    rw [hs] at this
    exact absurd this (by decide)
  | held q₀ hq₀ hh hs₀ hω =>
    have := hq₀.filled q hq hc
    rw [hs] at this
    exact absurd this (by decide)

theorem Stage.owned : Owned x c m := by
  cases h with
  | waiting hm hx =>
    constructor
    · intro π hπ
      simp [slavePositionId, hm.2.1] at hπ
    · intro ω hω
      simp [hm.2.2] at hω
  | resting o ho hs hω hh | cancelled o ho hs hω hh =>
    constructor
    · intro π hπ
      simp [slavePositionId, hh] at hπ
    · intro ω hω'
      exact ⟨o, ho.mem, by simpa [hω] using hω', ho.copy⟩
  | held q hq hh hs hω =>
    refine ⟨?_, hω⟩
    intro π hπ
    simp only [slavePositionId, hh, map_some, some.injEq] at hπ
    exact ⟨q, hq.mem, hπ, hq.copy⟩

end

end Stage

/-! ### Reports about one copy -/

section About

variable {a : ℕ} {x x' : Account} {c c₀ : ClientOrderId} {m : Mapping} {r : Report} {π ω k : ℕ}

theorem Account.HasPosition.copy_eq (h : x.HasPosition c π) (h' : x.HasPosition c₀ π) : c = c₀ := by
  obtain ⟨q, hq, hid, rfl⟩ := h
  obtain ⟨q', hq', hid', rfl⟩ := h'
  rw [eq_of_position_id hq hq' (hid.trans hid'.symm)]

theorem Account.HasOrder.copy_eq (h : x.HasOrder c ω) (h' : x.HasOrder c₀ ω) : c = c₀ := by
  obtain ⟨q, hq, hid, rfl⟩ := h
  obtain ⟨q', hq', hid', rfl⟩ := h'
  rw [eq_of_order_id hq hq' (hid.trans hid'.symm)]

/-- What the broker has given an id keeps it. -/
structure Account.Extends (x x' : Account) : Prop where
  position : ∀ c π, x.HasPosition c π → x'.HasPosition c π
  order : ∀ c ω, x.HasOrder c ω → x'.HasOrder c ω

theorem Account.Extends.of_eq (hp : x'.positions = x.positions) (ho : x'.orders = x.orders) :
    x.Extends x' := by
  constructor
  · rintro c π ⟨q, hq, h⟩
    exact ⟨q, hp ▸ hq, h⟩
  · rintro c ω ⟨q, hq, h⟩
    exact ⟨q, ho ▸ hq, h⟩

/-- A rewrite of one row that keeps ids and copies leaves every id with its copy. -/
theorem exists_rewritten {α : Type} {l : List α} {id : α → ℕ} {copy : α → ClientOrderId} {n : ℕ} {f : α → α}
    (h : ∃ q ∈ l, id q = n ∧ copy q = c) (hk : ∀ q, id (f q) = id q) (hf : ∀ q, copy (f q) = copy q) :
    ∃ q ∈ l.map fun r => if id r = k then f r else r, id q = n ∧ copy q = c := by
  obtain ⟨q, hq, hid, hc⟩ := h
  refine ⟨_, mem_map.2 ⟨q, hq, rfl⟩, ?_⟩
  split_ifs
  · exact ⟨(hk q).trans hid, (hf q).trans hc⟩
  · exact ⟨hid, hc⟩

theorem Account.HasPosition.modify {f : BrokerPosition → BrokerPosition} (h : x.HasPosition c π)
    (hx : x'.positions.rows = x.positions.rows.map fun r => if r.id = k then f r else r)
    (hk : ∀ q, (f q).id = q.id) (hf : ∀ q, (f q).clientOrderId = q.clientOrderId) :
    x'.HasPosition c π := by
  unfold HasPosition
  rw [hx]
  exact exists_rewritten h hk hf

theorem Account.HasOrder.modify {f : BrokerOrder → BrokerOrder} (h : x.HasOrder c ω)
    (hx : x'.orders.rows = x.orders.rows.map fun r => if r.id = k then f r else r)
    (hk : ∀ q, (f q).id = q.id) (hf : ∀ q, (f q).clientOrderId = q.clientOrderId) :
    x'.HasOrder c ω := by
  unfold HasOrder
  rw [hx]
  exact exists_rewritten h hk hf

theorem Account.HasPosition.insert {b : BrokerPosition} (h : x.HasPosition c π)
    (hx : x'.positions = x.positions.insert b) : x'.HasPosition c π := by
  obtain ⟨q, hq, hid, hc⟩ := h
  exact ⟨q, hx ▸ mem_insert_of_mem hq, hid, hc⟩

theorem Account.HasOrder.insert {b : BrokerOrder} (h : x.HasOrder c ω)
    (hx : x'.orders = x.orders.insert b) : x'.HasOrder c ω := by
  obtain ⟨q, hq, hid, hc⟩ := h
  exact ⟨q, hx ▸ mem_insert_of_mem hq, hid, hc⟩

theorem Owned.extends (h : Owned x c m) (he : x.Extends x') : Owned x' c m :=
  ⟨fun π hπ => he.position c π (h.position π hπ), fun ω hω => he.order c ω (h.order ω hω)⟩

theorem About.extends (h : About x c r) (he : x.Extends x') : About x' c r := by
  cases h with
  | market π v hm hq => exact .market π v hm (he.position c π hq)
  | pending π v ω hm hq ho => exact .pending π v ω hm (he.position c π hq) (he.order c ω ho)
  | close k π hq => exact .close k π (he.position c π hq)
  | accepted ω ho => exact .accepted ω (he.order c ω ho)
  | cancelled ω ho => exact .cancelled ω (he.order c ω ho)

theorem About.names (h : About x c₀ r) {c : ClientOrderId} (hc : r.names = some c) : c = c₀ := by
  cases h with
  | market π v h hq | pending π v ω h hq ho | accepted ω ho => exact (some.inj hc).symm
  | close k π hq => simp [Report.names, closeFill] at hc
  | cancelled ω ho => simp [Report.names] at hc

theorem pinned_market (π v : ℕ) (ω : Option ℕ) (h : c.isMarketCopy) :
    SlaveFill.pinned ⟨some c, π, v, none, ω, .unset⟩ = some c := by
  simp [SlaveFill.pinned, h]

theorem pinned_pending (π v : ℕ) (ω : Option ℕ) (h : c.isMarketCopy = false) :
    SlaveFill.pinned ⟨some c, π, v, none, ω, .unset⟩ = none := by
  simp [SlaveFill.pinned, h]

section

variable (h : Owned x c m)
include h

theorem Owned.isOrder_copy (ho : x.HasOrder c₀ ω)
    (hh : m.isOrder a (some ω)) : c = c₀ := by
  simp only [isOrder, Bool.and_eq_true, decide_eq_true_eq] at hh
  exact (h.order ω hh.1.2).copy_eq ho

/-- A report hits no row but its copy's. -/
theorem Owned.eq_of_hits (hm : m.clientOrderId = c) (hr : About x c₀ r)
    (hh : r.hits a m) : c = c₀ := by
  cases hr with
  | market π v hmk hq =>
    simp only [openFill, Report.hits, pinned_market π v none hmk, isCopy,
      Bool.and_eq_true, decide_eq_true_eq] at hh
    rw [← hm, hh.1]
  | pending π v ω hmk hq ho =>
    simp only [openFill, Report.hits, pinned_pending π v (some ω) hmk] at hh
    exact h.isOrder_copy ho hh
  | close k π hq =>
    simp only [closeFill, Report.hits, isReduced, SlaveFill.pinned, filter_none,
      Bool.and_eq_true, decide_eq_true_eq] at hh
    exact (h.position π hh.2).copy_eq hq
  | accepted ω ho =>
    cases c₀ with
    | co o a' =>
      simp only [Report.hits, isCopy, Bool.and_eq_true, decide_eq_true_eq] at hh
      rw [← hm, hh.1]
    | _ => simp [Report.hits] at hh
  | cancelled ω ho => exact h.isOrder_copy ho hh

theorem Owned.unhit (hm : m.clientOrderId = c) (hr : About x c₀ r)
    (hne : c ≠ c₀) : bookRow a r m = m :=
  if_neg fun hh => hne (h.eq_of_hits hm hr hh)

/-- A report writes ids of its own copy. -/
theorem Owned.sets (hr : About x c r) : Owned x c (r.sets m) := by
  cases hr with
  | market π v hmk hq =>
    simp only [openFill, Report.sets, pinned_market π v none hmk]
    refine ⟨?_, h.order⟩
    intro π' hπ
    obtain rfl : π = π' := by simpa [slavePositionId, accumulate] using hπ
    exact hq
  | pending π v ω hmk hq ho =>
    simp only [openFill, Report.sets, pinned_pending π v (some ω) hmk]
    refine ⟨?_, h.order⟩
    intro π' hπ
    obtain rfl : π = π' := by simpa [slavePositionId] using hπ
    exact hq
  | close k π hq =>
    refine ⟨?_, h.order⟩
    intro π' hπ
    refine h.position π' ?_
    simpa [closeFill, Report.sets, reduce, slavePositionId,
      Option.map_map, Function.comp_def] using hπ
  | accepted ω ho =>
    refine ⟨h.position, ?_⟩
    intro ω' hω
    obtain rfl : ω = ω' := some.inj hω
    exact ho
  | cancelled ω ho => exact ⟨h.position, h.order⟩

theorem Owned.bookRow (hm : m.clientOrderId = c) (hr : About x c₀ r) :
    Owned x c (bookRow a r m) := by
  unfold Copier.bookRow
  split_ifs with hh
  · obtain rfl := h.eq_of_hits hm hr hh
    exact h.sets hr
  · exact h

end

/-- `m'` is `m` after closes and cancels. -/
structure Lowered (m m' : Mapping) : Prop where
  order : m'.slaveOrderId = m.slaveOrderId
  position : m'.slavePositionId = m.slavePositionId
  volume : m'.volume ≤ m.volume
  active : m'.status = .active → m.status = .active

theorem Lowered.refl (m : Mapping) : Lowered m m := ⟨rfl, rfl, le_rfl, id⟩

theorem Lowered.trans {m₁ m₂ m₃ : Mapping} (h : Lowered m₁ m₂) (h' : Lowered m₂ m₃) :
    Lowered m₁ m₃ :=
  ⟨h'.order.trans h.order, h'.position.trans h.position, h'.volume.trans h.volume,
    fun hs => h.active (h'.active hs)⟩

/-- A report that hits a row it does not name closes or cancels. -/
theorem Owned.lowered (h : Owned x c m) (hm : m.clientOrderId = c) (hr : About x c₀ r)
    (hn : r.names ≠ some c) : Lowered m (Copier.bookRow a r m) := by
  unfold Copier.bookRow
  split_ifs with hh
  swap
  · exact .refl m
  obtain rfl := h.eq_of_hits hm hr hh
  cases hr with
  | market π v hmk hq | pending π v ω hmk hq ho | accepted ω ho => cases hn rfl
  | close k π hq =>
    simp only [closeFill, Report.hits, isReduced, Bool.and_eq_true,
      decide_eq_true_eq] at hh
    refine ⟨rfl, ?_, ?_, fun _ => hh.1.2⟩
    · simp [closeFill, Report.sets, reduce, slavePositionId,
        Option.map_map, Function.comp_def]
    · cases hheld : m.held with
      | none | some w =>
        simp [closeFill, Report.sets, reduce, volume, hheld]
  | cancelled ω ho => exact ⟨rfl, rfl, le_rfl, fun hs => absurd hs (by simp [Report.sets])⟩

/-- While no report names the copy, its row can only go down. -/
theorem Owned.settle_lowered {rs : List Report} (h : Owned x c m) (hm : m.clientOrderId = c)
    (hr : ∀ r ∈ rs, ∃ c₀, About x c₀ r) (hn : ∀ r ∈ rs, r.names ≠ some c) :
    Lowered m (settle a rs m) := by
  induction rs generalizing m with
  | nil => exact .refl m
  | cons r rs ih =>
    obtain ⟨c₀, hc₀⟩ := hr r mem_cons_self
    have hfirst := h.lowered (a := a) hm hc₀ (hn r mem_cons_self)
    refine hfirst.trans (ih (h.bookRow hm hc₀) ?_ ?_ ?_)
    · rw [bookRow_clientOrderId]
      exact hm
    · exact fun r' hr' => hr r' (mem_cons_of_mem r hr')
    · exact fun r' hr' => hn r' (mem_cons_of_mem r hr')

end About

/-! ### Moves keep the invariant -/

/-- Every row tells whose copy it is. -/
def Idents (s : Mappings) : Prop := ∀ c m, s.find c = some m → Ident c m

theorem Ident.account {c : ClientOrderId} {m : Mapping} (h : Ident c m) :
    c.account = some m.slaveAccountId := by
  cases c with
  | cm p a | co o a => exact congrArg some h.1.symm
  | other x => exact h.elim

/-- A move that concerns one copy, and reports about it. -/
structure Frame (x x' : Account) (c₀ : ClientOrderId) : Prop where
  requests : x'.requests = x.requests
  positions : ∀ q : BrokerPosition, q.clientOrderId ≠ c₀ →
    (q ∈ x'.positions.rows ↔ q ∈ x.positions.rows)
  orders : ∀ q : BrokerOrder, q.clientOrderId ≠ c₀ → (q ∈ x'.orders.rows ↔ q ∈ x.orders.rows)
  ids : x.Extends x'
  reports : x'.reports = x.reports ∨ ∃ r, About x' c₀ r ∧ x'.reports = x.reports ++ [r]

section Keep

variable {a : ℕ} {s : Mappings} {x x' : Account} {c c₀ : ClientOrderId} {m : Mapping} {r : Report}
  {q b : BrokerOrder} {i : SlaveIntent} {st : BrokerOrderStatus}

@[simp] theorem settle_clientOrderId (rs : List Report) :
    (settle a rs m).clientOrderId = m.clientOrderId := by
  induction rs generalizing m with
  | nil => rfl
  | cons r rs ih => rw [settle_cons, ih, bookRow_clientOrderId]

@[simp] theorem settle_slaveAccountId (rs : List Report) :
    (settle a rs m).slaveAccountId = m.slaveAccountId := by
  induction rs generalizing m with
  | nil => rfl
  | cons r rs ih => rw [settle_cons, ih, bookRow_slaveAccountId]

theorem Account.NoTrace.frame (h : x.NoTrace c) (hf : Frame x x' c₀) (hne : c ≠ c₀) :
    x'.NoTrace c := by
  constructor
  · intro q hq hc
    exact h.1 q ((hf.positions q (hc ▸ hne)).1 hq) hc
  · intro q hq hc
    exact h.2 q ((hf.orders q (hc ▸ hne)).1 hq) hc

/-- It is enough to look at the copy that moved. -/
theorem Booked.of_frame (h : Booked a s x) (hf : Frame x x' c₀) (hacc : c₀.account = some a)
    (hrow : (s.find c₀).isSome) (hnp : ∀ i ∈ x.requests, i.places ≠ some c₀)
    (hord : ∀ q ∈ x'.orders.rows, q.clientOrderId = c₀ →
      (∃ o, q.clientOrderId = .co o a) ∧ 0 < q.volume)
    (hstage : ∀ m, s.find c₀ = some m → Stage x' c₀ (settle a x'.reports m)) : Booked a s x' where
  requests := by rw [hf.requests]; exact h.requests
  named := by rw [hf.requests]; exact h.named
  placing := by
    rw [hf.requests]
    intro i hi c hc
    refine (h.placing i hi c hc).frame hf ?_
    rintro rfl
    exact hnp i hi hc
  nodup := by rw [hf.requests]; exact h.nodup
  reports := by
    intro r hr
    have hold : ∀ r ∈ x.reports, ∃ c, About x' c r ∧ (s.find c).isSome := by
      intro r hr
      obtain ⟨c, hc, hs⟩ := h.reports r hr
      exact ⟨c, hc.extends hf.ids, hs⟩
    rcases hf.reports with he | ⟨r', hr', he⟩
    · exact hold r (he ▸ hr)
    · rw [he] at hr
      rcases mem_append.1 hr with hr | hr
      · exact hold r hr
      · obtain rfl := mem_singleton.1 hr
        exact ⟨c₀, hr', hrow⟩
  positions := by
    intro q hq
    by_cases hc : q.clientOrderId = c₀
    · rw [hc]
      exact ⟨hacc, hrow⟩
    · exact h.positions q ((hf.positions q hc).1 hq)
  orders := by
    intro q hq
    by_cases hc : q.clientOrderId = c₀
    · exact ⟨(hord q hq hc).1, (hord q hq hc).2, by rw [hc]; exact hrow⟩
    · exact h.orders q ((hf.orders q hc).1 hq)
  owned := fun c m hc hm => (h.owned c m hc hm).extends hf.ids
  row := by
    intro c m hca hm
    by_cases hc : c = c₀
    · subst hc
      exact hstage m hm
    · have hst := h.row c m hca hm
      have hst' : Stage x' c (settle a x.reports m) :=
        hst.congr (fun q hq => hf.positions q (hq ▸ hc)) fun q hq => hf.orders q (hq ▸ hc)
      rcases hf.reports with he | ⟨r, hr, he⟩
      · rw [he]
        exact hst'
      · have hmc : (settle a x.reports m).clientOrderId = c := by
          rw [settle_clientOrderId]
          exact (find_eq_some hm).2
        rw [he, settle_snoc, hst'.owned.unhit hmc hr hc]
        exact hst'

theorem mem_modify_position {q b : BrokerPosition} (f : BrokerPosition → BrokerPosition)
    (p : ∀ r, Keyed.key (f r) = Keyed.key r) (hq : q ∈ x.positions.rows) :
    b ∈ (x.positions.modify q.id f p).rows ↔ b = f q ∨ (b ∈ x.positions.rows ∧ b.id ≠ q.id) :=
  mem_modify (find_of_mem hq)

theorem mem_modify_order (f : BrokerOrder → BrokerOrder)
    (p : ∀ r, Keyed.key (f r) = Keyed.key r) (hq : q ∈ x.orders.rows) :
    b ∈ (x.orders.modify q.id f p).rows ↔ b = f q ∨ (b ∈ x.orders.rows ∧ b.id ≠ q.id) :=
  mem_modify (find_of_mem hq)

/-- Rows of other copies do not see a rewrite of one copy's row. -/
theorem mem_modify_other {α : Type} [Keyed α ℕ] {t : Table α} {q b : α} (f : α → α)
    (p : ∀ r, Keyed.key (f r) = Keyed.key r) (hq : q ∈ t.rows) (hb : b ≠ f q)
    (hne : b ∈ t.rows → b ≠ q) : b ∈ (t.modify (Keyed.key q) f p).rows ↔ b ∈ t.rows := by
  rw [mem_modify (find_of_mem hq)]
  constructor
  · rintro (he | ⟨hm, -⟩)
    · exact absurd he hb
    · exact hm
  · intro hm
    exact .inr ⟨hm, fun hk => hne hm (eq_of_find (find_of_mem hq) hm hk)⟩

theorem places_co (h : i.places = some c) : ∃ o a, c = .co o a := by
  cases i with
  | placePending x => exact ⟨_, _, (some.inj h).symm⟩
  | _ => simp [SlaveIntent.places] at h

/-- A copy the broker knows is not about to be placed. -/
theorem Booked.not_placing (h : Booked a s x)
    (ht : (∃ q ∈ x.positions.rows, q.clientOrderId = c) ∨ ∃ q ∈ x.orders.rows, q.clientOrderId = c) :
    ∀ i ∈ x.requests, i.places ≠ some c := by
  intro i hi hc
  rcases ht with ⟨q, hq, hqc⟩ | ⟨q, hq, hqc⟩
  · exact (h.placing i hi c hc).1 q hq hqc
  · exact (h.placing i hi c hc).2 q hq hqc

theorem Idents.slaveAccountId (h : Idents s) (hm : s.find c = some m) (hc : c.account = some a) :
    m.slaveAccountId = a := by
  have := (h c m hm).account
  rw [hc] at this
  exact (some.inj this).symm

theorem isCopy_settle (hid : Idents s) (hm : s.find c = some m) (hc : c.account = some a)
    (rs : List Report) : (settle a rs m).isCopy a c := by
  have hmc : m.clientOrderId = c := (find_eq_some hm).2
  simp [isCopy, hmc, hid.slaveAccountId hm hc]

section

variable (h : Booked a s x)
include h

/-- A position that is held gets another volume, and its row the same once the report is handled. -/
theorem Booked.revolume {q : BrokerPosition} {r : Report} (f : BrokerPosition → BrokerPosition)
    (hid : ∀ b, (f b).id = b.id) (hcopy : ∀ b, (f b).clientOrderId = b.clientOrderId)
    (hq : q ∈ x.positions.rows) (hv : 0 < q.volume)
    (hr : ∀ x' : Account, x'.HasPosition q.clientOrderId q.id → About x' q.clientOrderId r)
    (hbook : ∀ m, s.find q.clientOrderId = some m → (settle a x.reports m).held = some ⟨q.id, q.volume⟩ →
      (settle a x.reports m).status = .active →
      ∃ st, bookRow a r (settle a x.reports m) =
        { settle a x.reports m with held := some ⟨q.id, (f q).volume⟩, status := st } ∧
          st = if (f q).volume = 0 then .closed else .active) :
    Booked a s { x with positions := x.positions.modify q.id f hid, reports := x.reports ++ [r] } := by
  have hacc := (h.positions q hq).1
  have hmem := fun b => mem_modify_position (b := b) f hid hq
  refine h.of_frame ?_ hacc (h.positions q hq).2 (h.not_placing (.inl ⟨q, hq, rfl⟩))
    (fun o ho _ => ⟨(h.orders o ho).1, (h.orders o ho).2.1⟩) fun m hm => ?_
  · refine ⟨rfl, fun b hb => mem_modify_other f hid hq ?_ ?_, fun _ _ => Iff.rfl,
      ⟨fun c π h => h.modify rfl hid hcopy, fun _ _ h => h⟩,
      .inr ⟨r, hr _ ⟨f q, (hmem _).2 (.inl rfl), hid q, hcopy q⟩, rfl⟩⟩
    · rintro rfl
      exact hb (hcopy q)
    · rintro - rfl
      exact hb rfl
  · have hst := h.row _ m hacc hm
    obtain ⟨hh, hheld, hactive⟩ := hst.of_volume hq rfl hv
    obtain ⟨st, hrow, hstatus⟩ := hbook m hm hheld hactive
    rw [settle_snoc, hrow]
    refine .held (f q) ⟨(hmem _).2 (.inl rfl), hcopy q, ?_, hh.filled⟩ ?_ hstatus hst.owned.order
    · intro b hb hbc hne
      rcases (hmem b).1 hb with rfl | ⟨hb, hbq⟩
      · cases hne rfl
      · exact hh.others b hb hbc hbq
    · rw [hid q]

theorem Booked.grow (hid : Idents s) {i : OpenMarket} {q : BrokerPosition}
    (hq : q ∈ x.positions.rows) (hv : 0 < q.volume)
    (hc : q.clientOrderId = .cm i.masterPositionId i.slaveAccountId) : Booked a s { x with
      positions := x.positions.modify q.id (Account.addVolume i.volume) fun _ => rfl
      reports := x.reports ++ [Account.openFill q.clientOrderId q.id i.volume none] } := by
  have hmk : q.clientOrderId.isMarketCopy := by rw [hc]; rfl
  refine h.revolume (addVolume i.volume) (fun _ => rfl) (fun _ => rfl) hq hv
    (fun _ hpos => .market q.id i.volume hmk hpos) fun m hm hheld _ => ⟨.active, ?_, ?_⟩
  · rw [openFill, bookRow_market rfl (pinned_market q.id i.volume none hmk)]
    refine (if_pos (isCopy_settle hid hm (h.positions q hq).1 x.reports)).trans ?_
    simp [accumulate, volume, hheld, addVolume]
  · have : ¬ (addVolume i.volume q).volume = 0 := by
      simp only [addVolume]
      omega
    rw [if_neg this]

theorem Booked.start (hid : Idents s) {i : OpenMarket} {π : ℕ}
    (hw : (SlaveIntent.openMarket i).Wf a)
    (hrow : (s.find (.cm i.masterPositionId i.slaveAccountId)).isSome)
    (hf : x.positions.find π = none)
    (hno : ∀ q ∈ x.positions.rows, q.clientOrderId = .cm i.masterPositionId i.slaveAccountId →
      q.volume = 0) :
    Booked a s { x with
      positions := x.positions.insert ⟨π, .cm i.masterPositionId i.slaveAccountId, i.volume⟩
      reports := x.reports ++
        [Account.openFill (.cm i.masterPositionId i.slaveAccountId) π i.volume none] } := by
  obtain ⟨ha, hv⟩ := hw
  simp only [SlaveIntent.slaveAccountId] at ha
  subst ha
  generalize hc : ClientOrderId.cm i.masterPositionId i.slaveAccountId = c at *
  have hmk : c.isMarketCopy := by rw [← hc]; rfl
  have hacc : c.account = some i.slaveAccountId := by rw [← hc]; rfl
  have hnoord : ∀ o ∈ x.orders.rows, o.clientOrderId ≠ c := by
    intro o ho he
    obtain ⟨o', ho'⟩ := (h.orders o ho).1
    rw [← hc, ho'] at he
    simp at he
  have hmem : ∀ b : BrokerPosition, b ∈ (x.positions.insert ⟨π, c, i.volume⟩).rows ↔
      b = ⟨π, c, i.volume⟩ ∨ b ∈ x.positions.rows := fun b => mem_insert hf
  refine h.of_frame ?_ hacc hrow ?_ (fun o ho he => absurd he (hnoord o ho)) fun m hm => ?_
  · refine ⟨rfl, fun b hb => (hmem b).trans (or_iff_right ?_), fun _ _ => Iff.rfl,
      ⟨fun c π h => h.insert rfl, fun _ _ h => h⟩,
      .inr ⟨_, .market π i.volume hmk ⟨_, (hmem _).2 (.inl rfl), rfl, rfl⟩, rfl⟩⟩
    rintro rfl
    exact hb rfl
  · intro j hj he
    obtain ⟨o, b, he'⟩ := places_co he
    rw [← hc] at he'
    simp at he'
  · have hst := h.row _ m hacc hm
    have hp := pinned_market π i.volume none hmk
    -- whatever the row held is emptied
    have hzero : (settle i.slaveAccountId x.reports m).volume = 0 := by
      cases hst with
      | waiting hun hx => simp [volume, hun.2.1]
      | resting o ho hs hω hh | cancelled o ho hs hω hh => simp [volume, hh]
      | held q hq hh hs hω => simp [volume, hh, hno q hq.mem hq.copy]
    have hbook : bookRow i.slaveAccountId (openFill c π i.volume none)
        (settle i.slaveAccountId x.reports m) =
        (settle i.slaveAccountId x.reports m).accumulate π i.volume := by
      rw [openFill, bookRow_market rfl hp]
      exact if_pos (isCopy_settle hid hm hacc x.reports)
    rw [settle_snoc, hbook]
    refine .held ⟨π, c, i.volume⟩ ⟨(hmem _).2 (.inl rfl), rfl, ?_, ?_⟩ ?_ ?_ ?_
    · intro b hb hbc hne
      rcases (hmem b).1 hb with rfl | hb
      · cases hne rfl
      · exact hno b hb hbc
    · exact fun o ho he => absurd he (hnoord o ho)
    · simp [accumulate, hzero]
    · have hne : ¬ i.volume = 0 := Nat.pos_iff_ne_zero.1 hv
      rw [if_neg hne]
      rfl
    · exact hst.owned.order

theorem Booked.close (hid : Idents s) {q : BrokerPosition} {k : ℕ}
    (hq : q ∈ x.positions.rows) (hk : 0 < k) (hkq : k ≤ q.volume) : Booked a s { x with
      positions := x.positions.modify q.id (Account.subVolume k) fun _ => rfl
      reports := x.reports ++ [Account.closeFill q.id k] } := by
  refine h.revolume (subVolume k) (fun _ => rfl) (fun _ => rfl) hq (by omega)
    (fun _ hpos => .close k q.id hpos) fun m hm hheld hactive => ⟨_, ?_, rfl⟩
  rw [closeFill, bookRow_close rfl]
  refine (if_pos ?_).trans ?_
  swap
  · simp [reduce, hheld, subVolume, Nat.sub_eq_zero_iff_le]
  · simp [isReduced, SlaveFill.pinned, hactive, slavePositionId, hheld,
      hid.slaveAccountId hm (h.positions q hq).1]

theorem Booked.place (hid : Idents s) {i : PlacePending} {ω : ℕ}
    (hw : (SlaveIntent.placePending i).Wf a)
    (hrow : (s.find (.co i.masterOrderId i.slaveAccountId)).isSome)
    (hno : x.NoTrace (.co i.masterOrderId i.slaveAccountId))
    (hnp : ∀ j ∈ x.requests, j.places ≠ some (.co i.masterOrderId i.slaveAccountId))
    (hf : x.orders.find ω = none) : Booked a s { x with
      orders := x.orders.insert ⟨ω, .co i.masterOrderId i.slaveAccountId, i.volume, .resting⟩
      reports := x.reports ++ [.accepted (some (.co i.masterOrderId i.slaveAccountId)) ω] } := by
  obtain ⟨ha, hv⟩ := hw
  simp only [SlaveIntent.slaveAccountId] at ha
  subst ha
  have hacc : (ClientOrderId.co i.masterOrderId i.slaveAccountId).account = some i.slaveAccountId := rfl
  have hmem : ∀ b : BrokerOrder, b ∈ (x.orders.insert
      ⟨ω, .co i.masterOrderId i.slaveAccountId, i.volume, .resting⟩).rows ↔
      b = ⟨ω, .co i.masterOrderId i.slaveAccountId, i.volume, .resting⟩ ∨ b ∈ x.orders.rows :=
    fun b => mem_insert hf
  refine h.of_frame ?_ hacc hrow hnp ?_ fun m hm => ?_
  · refine ⟨rfl, fun _ _ => Iff.rfl, fun b hb => (hmem b).trans (or_iff_right ?_),
      ⟨fun _ _ h => h, fun c ω h => h.insert rfl⟩,
      .inr ⟨_, .accepted ω ⟨_, (hmem _).2 (.inl rfl), rfl, rfl⟩, rfl⟩⟩
    rintro rfl
    exact hb rfl
  · intro q hq hc
    rcases (hmem q).1 hq with rfl | hq
    · exact ⟨⟨_, rfl⟩, hv⟩
    · exact absurd hc (hno.2 q hq)
  · have hst := h.row _ m hacc hm
    have hun : (settle i.slaveAccountId x.reports m).Untouched := by
      cases hst with
      | waiting hun hx => exact hun
      | resting o ho hs hω hh | cancelled o ho hs hω hh => exact absurd ho.copy (hno.2 o ho.mem)
      | held q hq hh hs hω => exact absurd hq.copy (hno.1 q hq.mem)
    have hbook : bookRow i.slaveAccountId
        (.accepted (some (.co i.masterOrderId i.slaveAccountId)) ω)
        (settle i.slaveAccountId x.reports m) =
        { settle i.slaveAccountId x.reports m with slaveOrderId := some ω, status := .active } :=
      if_pos (isCopy_settle hid hm hacc x.reports)
    rw [settle_snoc, hbook]
    refine .resting ⟨ω, .co i.masterOrderId i.slaveAccountId, i.volume, .resting⟩
      ⟨(hmem _).2 (.inl rfl), rfl, rfl, ?_, hno.1⟩ rfl rfl hun.2.1
    intro q hq hc
    rcases (hmem q).1 hq with rfl | hq
    · rfl
    · exact absurd hc (hno.2 q hq)

end

/-- After a rewrite of the copy's only order, every order of the copy is that one. -/
theorem Account.Only.orders_modify
    (hq : x.Only c st q) (f : BrokerOrder → BrokerOrder) (p : ∀ r, Keyed.key (f r) = Keyed.key r)
    (hb : b ∈ (x.orders.modify q.id f p).rows) (hbc : b.clientOrderId = c) : b = f q := by
  rcases (mem_modify_order f p hq.mem).1 hb with rfl | ⟨hb, hne⟩
  · rfl
  · exact absurd (congrArg BrokerOrder.id (hq.only b hb hbc)) hne

/-- A resting order that stays the copy's only order. -/
theorem Account.Only.modify {st' : BrokerOrderStatus} (hq : x.Only c st q)
    (f : BrokerOrder → BrokerOrder) (p : ∀ r, Keyed.key (f r) = Keyed.key r)
    (hc : (f q).clientOrderId = c) (hs : (f q).status = st') (rs : List Report) :
    Account.Only { x with orders := x.orders.modify q.id f p, reports := rs } c st' (f q) where
  mem := (mem_modify_order f p hq.mem).2 (.inl rfl)
  copy := hc
  status := hs
  only _ hb hbc := hq.orders_modify f p hb hbc
  free := hq.free

/-- A resting order is rewritten; `x'` may have a position and a report of its copy besides. -/
theorem Booked.reorder (h : Booked a s x) (f : BrokerOrder → BrokerOrder) (p : ∀ r, Keyed.key (f r) = Keyed.key r)
    (hf : ∀ r, (f r).clientOrderId = r.clientOrderId) (hq : q ∈ x.orders.rows) (hs : q.status = .resting)
    (hv : 0 < (f q).volume) (hreq : x'.requests = x.requests) (hord : x'.orders = x.orders.modify q.id f p)
    (hpos : ∀ b : BrokerPosition, b.clientOrderId ≠ q.clientOrderId →
      (b ∈ x'.positions.rows ↔ b ∈ x.positions.rows)) (hids : ∀ c π, x.HasPosition c π → x'.HasPosition c π)
    (hrep : x'.HasOrder q.clientOrderId q.id → x'.reports = x.reports ∨
      ∃ r, About x' q.clientOrderId r ∧ x'.reports = x.reports ++ [r])
    (hstage : ∀ m, s.find q.clientOrderId = some m → x.Only q.clientOrderId .resting q →
      (settle a x.reports m).status = .active → (settle a x.reports m).slaveOrderId = some q.id →
      (settle a x.reports m).held = none → Stage x' q.clientOrderId (settle a x'.reports m)) : Booked a s x' := by
  obtain ⟨⟨o, hco⟩, -, hrow⟩ := h.orders q hq
  have hacc : q.clientOrderId.account = some a := by rw [hco]; rfl
  obtain ⟨m₀, hm₀⟩ := isSome_iff_exists.1 hrow
  have honly := ((h.row _ m₀ hacc hm₀).of_resting hq rfl hs).1
  have hmem := fun b => mem_modify_order (b := b) f p hq
  refine h.of_frame ⟨hreq, hpos, fun b hb => ?_, ⟨hids, fun c ω h => h.modify (congrArg rows hord) p hf⟩,
    hrep ?_⟩ hacc hrow
    (h.not_placing (.inr ⟨q, hq, rfl⟩)) ?_ fun m hm => ?_
  · rw [hord]
    refine mem_modify_other f p hq ?_ ?_
    · rintro rfl
      exact hb (hf q)
    · rintro - rfl
      exact hb rfl
  · exact ⟨f q, hord ▸ (hmem _).2 (.inl rfl), p q, hf q⟩
  · intro b hb hbc
    rw [hord] at hb
    obtain rfl := honly.orders_modify f p hb hbc
    exact ⟨⟨o, (hf q).trans hco⟩, hv⟩
  · obtain ⟨-, hst, hω, hh⟩ := (h.row _ m hacc hm).of_resting hq rfl hs
    exact hstage m hm honly hst hω hh

theorem Booked.resize (h : Booked a s x) {v : ℕ} (hq : q ∈ x.orders.rows) (hs : q.status = .resting)
    (hv : 0 < v) : Booked a s { x with
      orders := x.orders.modify q.id (Account.resize v) fun _ => rfl } := by
  refine h.reorder (Account.resize v) (fun _ => rfl) (fun _ => rfl) hq hs hv rfl rfl (fun _ _ => Iff.rfl)
    (fun _ _ h => h) (fun _ => .inl rfl) fun m _ honly hst hω hh => ?_
  exact .resting (Account.resize v q) (honly.modify (Account.resize v) (fun _ => rfl) rfl hs x.reports) hst hω hh

theorem Booked.cancel (h : Booked a s x) (hid : Idents s) (hq : q ∈ x.orders.rows)
    (hs : q.status = .resting) : Booked a s { x with
      orders := x.orders.modify q.id (Account.mark .cancelled) fun _ => rfl
      reports := x.reports ++ [.cancelled q.id] } := by
  refine h.reorder (mark .cancelled) (fun _ => rfl) (fun _ => rfl) hq hs (h.orders q hq).2.1 rfl rfl
    (fun _ _ => Iff.rfl) (fun _ _ h => h) (fun ho => .inr ⟨_, .cancelled q.id ho, rfl⟩)
      fun m hm honly hst hω hh => ?_
  obtain ⟨o, hco⟩ := (h.orders q hq).1
  have hbook : bookRow a (.cancelled q.id) (settle a x.reports m) =
      { settle a x.reports m with status := .closed } := by
    refine if_pos ?_
    simp [Report.hits, isOrder, hω, hst, hid.slaveAccountId hm (a := a) (by rw [hco]; rfl)]
  rw [settle_snoc, hbook]
  exact .cancelled (mark .cancelled q) (honly.modify (mark .cancelled) (fun _ => rfl) rfl rfl _) rfl hω hh

theorem Booked.trigger (h : Booked a s x) (hid : Idents s) {π : ℕ} (hq : q ∈ x.orders.rows)
    (hs : q.status = .resting) (hf : x.positions.find π = none) : Booked a s { x with
      orders := x.orders.modify q.id (Account.mark .filled) fun _ => rfl
      positions := x.positions.insert ⟨π, q.clientOrderId, q.volume⟩
      reports := x.reports ++ [Account.openFill q.clientOrderId π q.volume (some q.id)] } := by
  obtain ⟨⟨o, hco⟩, hv, -⟩ := h.orders q hq
  have hmk : q.clientOrderId.isMarketCopy = false := by rw [hco]; rfl
  have hmem : ∀ b : BrokerPosition, b ∈ (x.positions.insert ⟨π, q.clientOrderId, q.volume⟩).rows ↔
      b = ⟨π, q.clientOrderId, q.volume⟩ ∨ b ∈ x.positions.rows := fun b => mem_insert hf
  refine h.reorder (mark .filled) (fun _ => rfl) (fun _ => rfl) hq hs hv rfl rfl (fun b hb => ?_)
    (fun _ _ h => h.insert rfl) (fun ho => .inr ⟨_, .pending π q.volume q.id hmk ?_ ho, rfl⟩)
    fun m hm honly hst hω hh => ?_
  · refine (hmem b).trans (or_iff_right ?_)
    rintro rfl
    exact hb rfl
  · exact ⟨_, (hmem _).2 (.inl rfl), rfl, rfl⟩
  · have hp := pinned_pending π q.volume (some q.id) hmk
    have hbook : bookRow a (openFill q.clientOrderId π q.volume (some q.id))
        (settle a x.reports m) =
        { settle a x.reports m with held := some ⟨π, q.volume⟩, status := .active } := by
      rw [openFill, bookRow_pending rfl hp]
      refine if_pos ?_
      simp [isOrder, hω, hst, hid.slaveAccountId hm (a := a) (by rw [hco]; rfl)]
    rw [settle_snoc, hbook]
    refine .held ⟨π, q.clientOrderId, q.volume⟩ ⟨(hmem _).2 (.inl rfl), rfl, ?_, ?_⟩ rfl ?_ ?_
    · intro b hb hbc hne
      rcases (hmem b).1 hb with rfl | hb
      · cases hne rfl
      · exact absurd hbc (honly.free b hb)
    · intro b hb hbc
      rw [honly.orders_modify (mark .filled) (fun _ => rfl) hb hbc]
      rfl
    · have hne : ¬ q.volume = 0 := Nat.pos_iff_ne_zero.1 hv
      rw [if_neg hne]
    · intro ω hω'
      obtain rfl : q.id = ω := some.inj (hω.symm.trans hω')
      exact ⟨mark .filled q, (mem_modify_order (mark .filled) (fun _ => rfl) hq).2 (.inl rfl), rfl, rfl⟩

/-- What the invariant says of a request that is about to be executed. -/
structure Ready (a : ℕ) (s : Mappings) (x : Account) (i : SlaveIntent) : Prop where
  wf : i.Wf a
  row : ∀ c, clientOrderIdFor i = some c → (s.find c).isSome
  free : ∀ c, i.places = some c → x.NoTrace c
  once : ∀ c, i.places = some c → ∀ j ∈ x.requests, j.places ≠ some c

theorem Booked.pop {rest : List SlaveIntent} (h : Booked a s x) (hr : x.requests = i :: rest) :
    Booked a s { x with requests := rest } ∧ Ready a s { x with requests := rest } i := by
  have hsub : ∀ j ∈ rest, j ∈ x.requests := fun j hj => by rw [hr]; exact mem_cons_of_mem i hj
  have hi : i ∈ x.requests := by rw [hr]; exact mem_cons_self
  have hnd := h.nodup
  rw [hr] at hnd
  constructor
  · exact { h with
      requests := fun j hj => h.requests j (hsub j hj)
      named := fun j hj => h.named j (hsub j hj)
      placing := fun j hj => h.placing j (hsub j hj)
      nodup := hnd.sublist ((sublist_cons_self i rest).filterMap _)
      reports := fun r hr' => by
        obtain ⟨c, hc, hs⟩ := h.reports r hr'
        exact ⟨c, hc.extends (.of_eq rfl rfl), hs⟩
      owned := fun c m hc hm => (h.owned c m hc hm).extends (.of_eq rfl rfl)
      row := fun c m hc hm => (h.row c m hc hm).congr (fun _ _ => Iff.rfl) fun _ _ => Iff.rfl }
  · refine ⟨h.requests i hi, h.named i hi, h.placing i hi, fun c hc j hj hjc => ?_⟩
    rw [filterMap_cons, hc] at hnd
    exact (nodup_cons.1 hnd).1 (mem_filterMap.2 ⟨j, hj, hjc⟩)

theorem Booked.move {io : Option SlaveIntent} (h : Booked a s x) (hid : Idents s)
    (hi : ∀ i, io = some i → Ready a s x i) (hm : Move x io x') : Booked a s x' := by
  cases hm with
  | idle i hc => exact h
  | grow i q hq hv hc => exact h.grow hid hq hv hc
  | start i π hf hno =>
    have hr := hi _ rfl
    exact h.start hid hr.wf (hr.row _ rfl) hf hno
  | close i q hq hi hk => exact h.close hid hq hk (min_le_right _ _)
  | place i ω hf =>
    have hr := hi _ rfl
    exact h.place hid hr.wf (hr.row _ rfl) (hr.free _ rfl) (hr.once _ rfl) hf
  | resize i q hq hs hid' => exact h.resize hq hs (hi _ rfl).wf.2
  | cancel i q hq hs hid' => exact h.cancel hid hq hs
  | trigger q π hq hs hf => exact h.trigger hid hq hs hf

end Keep

end Copier
