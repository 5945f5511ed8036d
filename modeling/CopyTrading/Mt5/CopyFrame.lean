import CopyTrading.Mt5.CopyShare
import CopyTrading.Mt5.NetClose

/-!
# Mt5.CopyFrame — a follower that trades copies only, and what happens beside it

A follower that trades copies only is sent market orders of copies, one at a time for each copy, and amends
(`OnlyCopies`).  A close is on the other side of its copy's open (`Opposed`).  What the other accounts report, what
is dispatched and what expires changes neither the follower's commands (`Apart`) nor what its copies hold
(`Beside`).
-/

namespace Copier.Mt5

open List Option Table CommandRow

variable {account : ℕ} {r : CommandRow}

/-! ### Commands of copies only -/

/-- A command of a copy that is not settled. -/
def CommandRow.inFlight (account : ℕ) (r : CommandRow) : Bool :=
  r.accountId = account && r.isOpen && r.clientOrderId.isSome

/-- The account's commands are market orders of copies and amends; the opens of a copy are on one side, and a copy
has one command in flight. -/
structure OnlyCopies (account : ℕ) (rows : List CommandRow) : Prop where
  copies : ∀ r ∈ rows, r.accountId = account →
    r.payload.kind = .amend ∨ r.payload.kind = .openMarket ∧ r.clientOrderId.isSome = true
  sided : ∀ r ∈ rows, r.accountId = account → r.closing = false →
    ∀ c ∈ r.clientOrderId, openPayload rows c = r.market
  single : ∀ r ∈ rows, ∀ r' ∈ rows, r.inFlight account = true → r'.inFlight account = true →
    r'.clientOrderId = r.clientOrderId → r'.id = r.id

instance (account : ℕ) (rows : List CommandRow) : Decidable (OnlyCopies account rows) :=
  decidable_of_iff (_ ∧ _ ∧ _) ⟨fun h => ⟨h.1, h.2.1, h.2.2⟩, fun h => ⟨h.copies, h.sided, h.single⟩⟩

/-- A close is on the other side of its copy's open. -/
def Opposed (rows : List CommandRow) : Prop :=
  ∀ r ∈ rows, r.closing = true → ∃ c x, r.clientOrderId = some c ∧ openPayload rows c = some x ∧
    r.market = some (x.1, Side.opposite x.2)

theorem inFlight_iff : r.inFlight account = true ↔
    r.accountId = account ∧ r.isOpen = true ∧ r.clientOrderId.isSome = true := by
  simp only [inFlight, Bool.and_eq_true, decide_eq_true_eq, and_assoc]

section Rows

variable {account : ℕ} {rows new : List CommandRow} {g : CommandRow → CommandRow} {c : ClientOrderId}

/-- The side of a copy is that of its first open. -/
theorem openPayload_of_some {x : String × Side} (h : openPayload rows c = some x) :
    openPayload (rows ++ new) c = some x := by
  unfold openPayload at h ⊢
  rw [findSome?_append, h, some_or]

theorem openPayload_new (rows : List CommandRow) (h : ∀ r ∈ new, r.clientOrderId = none) (c : ClientOrderId) :
    openPayload (rows ++ new) c = openPayload rows c := by
  have hnone : openPayload new c = none := by
    refine findSome?_eq_none_iff.2 fun r hr => ?_
    rw [h r hr]
    split <;> simp
  unfold openPayload at hnone ⊢
  rw [findSome?_append, hnone, or_none]

/-- Rows that keep their labels, and commands of no copy after them. -/
theorem openPayload_keeps (hg : ∀ r ∈ rows, SameLabel r (g r)) (hnew : ∀ r ∈ new, r.clientOrderId = none)
    (c : ClientOrderId) : openPayload (rows.map g ++ new) c = openPayload rows c := by
  rw [openPayload_new _ hnew, openPayload_map hg]

/-- Rows may be settled, and amends and other accounts' commands may be queued. -/
theorem OnlyCopies.keeps (h : OnlyCopies account rows) (hg : ∀ r ∈ rows, SameLabel r (g r))
    (ho : ∀ r ∈ rows, (g r).isOpen = true → r.isOpen = true) (hnew : ∀ r ∈ new, r.clientOrderId = none)
    (hamend : ∀ r ∈ new, r.accountId = account → r.payload.kind = .amend) :
    OnlyCopies account (rows.map g ++ new) := by
  have hold : ∀ r' ∈ rows.map g ++ new, r'.clientOrderId.isSome = true → ∃ r ∈ rows, r' = g r := by
    intro r' hr' hc
    rcases mem_append.1 hr' with hr' | hr'
    · obtain ⟨r, hr, rfl⟩ := mem_map.1 hr'
      exact ⟨r, hr, rfl⟩
    · rw [hnew r' hr'] at hc
      cases hc
  refine ⟨fun r' hr' ha => ?_, fun r' hr' ha hx c hc => ?_, fun r₁ hr₁ r₂ hr₂ hf₁ hf₂ heq => ?_⟩
  · rcases mem_append.1 hr' with hr' | hr'
    · obtain ⟨r, hr, rfl⟩ := mem_map.1 hr'
      have hs := hg r hr
      rw [hs.payload, hs.clientOrderId]
      exact h.copies r hr (hs.accountId ▸ ha)
    · exact .inl (hamend r' hr' ha)
  · obtain ⟨r, hr, rfl⟩ := hold r' hr' (by rw [hc]; rfl)
    have hs := hg r hr
    rw [openPayload_keeps hg hnew, market_same hs]
    exact h.sided r hr (hs.accountId ▸ ha) (hs.closing ▸ hx) c (hs.clientOrderId ▸ hc)
  · have hflight : ∀ r ∈ rows, (g r).inFlight account = true → r.inFlight account = true := by
      intro r hr hf
      have hs := hg r hr
      rw [inFlight_iff, hs.accountId, hs.clientOrderId] at hf
      exact inFlight_iff.2 ⟨hf.1, ho r hr hf.2.1, hf.2.2⟩
    obtain ⟨r, hr, rfl⟩ := hold r₁ hr₁ (inFlight_iff.1 hf₁).2.2
    obtain ⟨r', hr', rfl⟩ := hold r₂ hr₂ (inFlight_iff.1 hf₂).2.2
    rw [(hg r hr).id, (hg r' hr').id]
    refine h.single r hr r' hr' (hflight r hr hf₁) (hflight r' hr' hf₂) ?_
    rw [← (hg r hr).clientOrderId, ← (hg r' hr').clientOrderId]
    exact heq

theorem Opposed.keeps (h : Opposed rows) (hg : ∀ r ∈ rows, SameLabel r (g r))
    (hnew : ∀ r ∈ new, r.clientOrderId = none) (hx : ∀ r ∈ new, r.closing = false) :
    Opposed (rows.map g ++ new) := by
  intro r' hr' hclosing
  rcases mem_append.1 hr' with hr' | hr'
  · obtain ⟨r, hr, rfl⟩ := mem_map.1 hr'
    have hs := hg r hr
    obtain ⟨c, x, hc, hopen, hmarket⟩ := h r hr (hs.closing ▸ hclosing)
    exact ⟨c, x, hs.clientOrderId.trans hc, (openPayload_keeps hg hnew c).trans hopen,
      (market_same hs).trans hmarket⟩
  · rw [hx r' hr'] at hclosing
    cases hclosing

theorem Opposed.enqueueOne (h : Opposed rows) (cfg : ServerConfig) (now : ℚ) (i : SlaveIntent) :
    Opposed (enqueueOne cfg now rows i) := by
  unfold Mt5.enqueueOne
  split
  · exact h
  · intro r hr hclosing
    rcases mem_append.1 hr with hr | hr
    · obtain ⟨c, x, hc, hopen, hmarket⟩ := h r hr hclosing
      exact ⟨c, x, hc, openPayload_of_some hopen, hmarket⟩
    · rw [mem_toList] at hr
      cases enqueueIntent_cases hr with
      | plain i payload hp => cases hclosing
      | close i p x hopen => exact ⟨_, x, rfl, openPayload_of_some hopen, rfl⟩

theorem Opposed.dispatch {s : Server} (h : Opposed s.rows) (cfg : ServerConfig) (gates : Org) (now : ℚ)
    (intents : List SlaveIntent) : Opposed (s.dispatch cfg gates now intents).rows := by
  unfold Server.dispatch
  generalize (Copier.dispatch gates _ s.service.mappings) = r
  show Opposed (r.2.foldl (Mt5.enqueueOne cfg now) s.rows)
  generalize r.2 = is
  generalize s.rows = rows at h
  induction is generalizing rows with
  | nil => exact h
  | cons i is ih => exact ih _ (h.enqueueOne cfg now i)

end Rows

/-! ### Commands beside the account's -/

/-- Rows of other accounts may have been written, and commands were queued. -/
def Apart (account : ℕ) (rows rows' : List CommandRow) : Prop :=
  ∃ (g : CommandRow → CommandRow) (new : List CommandRow), rows' = rows.map g ++ new ∧
    (∀ r ∈ rows, SameLabel r (g r)) ∧ (∀ r ∈ rows, r.accountId = account → g r = r) ∧
    ∀ r ∈ new, r.accountId = account → r.status = .queued

section Apart

variable {account : ℕ} {rows rows' : List CommandRow} {r : CommandRow}

theorem Numbered.lt (hn : Numbered rows) (hr : r ∈ rows) : r.id < rows.length := by
  obtain ⟨i, hi⟩ := List.mem_iff_getElem?.1 hr
  rw [hn i r hi]
  exact (List.getElem?_eq_some_iff.1 hi).1

/-- The row that an acknowledgement settles is the one in its place. -/
theorem Numbered.find_awaits (hn : Numbered rows) (i : ℕ) :
    rows.find? (CommandRow.awaits account i) = rows[i]?.filter fun r => r.isOpen && r.accountId = account := by
  cases hr : rows.find? (awaits account i) with
  | some r =>
    have hawaits := find?_some hr
    simp only [awaits, Bool.and_eq_true, decide_eq_true_eq] at hawaits
    obtain ⟨j, hj⟩ := List.mem_iff_getElem?.1 (mem_of_find?_eq_some hr)
    rw [← hawaits.1.1, hn j r hj, hj, filter_some, if_pos]
    simp [hawaits.1.2, hawaits.2]
  | none =>
    symm
    rw [filter_eq_none_iff]
    intro r hri hopen
    refine find?_eq_none.1 hr r (mem_of_getElem? hri) ?_
    simp only [Bool.and_eq_true, decide_eq_true_eq] at hopen
    simp [awaits, hn i r hri, hopen.1, hopen.2]

theorem Apart.of_appended {now : ℚ} (h : Appended now rows rows') : Apart account rows rows' := by
  obtain ⟨new, rfl, hnew⟩ := h
  refine ⟨id, new, by rw [List.map_id], fun r _ => .refl r, fun _ _ _ => rfl, fun r hr _ => ?_⟩
  obtain ⟨i, hi⟩ := List.mem_iff_getElem?.1 hr
  exact (hnew i r hi).status

section

variable (h : Apart account rows rows')
include h

theorem Apart.mem (hr : r ∈ rows) (ha : r.accountId = account) : r ∈ rows' := by
  obtain ⟨g, new, rfl, -, hkeep, -⟩ := h
  exact mem_append_left _ (mem_map.2 ⟨r, hr, hkeep r hr ha⟩)

/-- The account's rows are what they were, or queued. -/
theorem Apart.old (hr : r ∈ rows') (ha : r.accountId = account) :
    r ∈ rows ∨ r.status = .queued := by
  obtain ⟨g, new, rfl, hlabel, hkeep, hnew⟩ := h
  rcases mem_append.1 hr with hr | hr
  · obtain ⟨r₀, hr₀, rfl⟩ := mem_map.1 hr
    rw [hkeep r₀ hr₀ ((hlabel r₀ hr₀).accountId ▸ ha)]
    exact .inl hr₀
  · exact .inr (hnew r hr ha)

theorem Apart.find_awaits (hn : Numbered rows) (hn' : Numbered rows') {i : ℕ}
    (hi : i < rows.length) :
    rows'.find? (CommandRow.awaits account i) = rows.find? (CommandRow.awaits account i) := by
  rw [hn.find_awaits, hn'.find_awaits]
  obtain ⟨g, new, rfl, hlabel, hkeep, -⟩ := h
  rw [getElem?_append_left (by rwa [length_map]), getElem?_map]
  cases hr : rows[i]? with
  | none => rfl
  | some r =>
    have hmem := mem_of_getElem? hr
    rw [map_some, filter_some, filter_some, (hlabel r hmem).accountId]
    by_cases ha : r.accountId = account
    · rw [hkeep r hmem ha]
    · simp [ha]

theorem Apart.openPayload_some {c : ClientOrderId} {x : String × Side}
    (hx : openPayload rows c = some x) : openPayload rows' c = some x := by
  obtain ⟨g, new, rfl, hlabel, -⟩ := h
  refine openPayload_of_some ?_
  rw [openPayload_map hlabel]
  exact hx

end

end Apart

/-! ### Mappings beside the account's -/

/-- What the account's mappings hold is what they held; a new mapping holds nothing. -/
structure Beside (account : ℕ) (ms ms' : Mappings) : Prop where
  kept : ∀ c m, ms.find c = some m → ∃ m', ms'.find c = some m' ∧ m'.slaveAccountId = m.slaveAccountId ∧
    (m.slaveAccountId = account → (m'.status = .active ↔ m.status = .active) ∧ m'.held = m.held)
  new : ∀ c m', ms.find c = none → ms'.find c = some m' → c.account = some m'.slaveAccountId ∧
    (m'.slaveAccountId = account → m'.status ≠ .active ∧ m'.held = none)

section Beside

variable {account : ℕ} {rows rows' : List CommandRow} {ms ms' ms'' : Mappings}

theorem Beside.refl (account : ℕ) (ms : Mappings) : Beside account ms ms :=
  ⟨fun _ m hm => ⟨m, hm, rfl, fun _ => ⟨.rfl, rfl⟩⟩, fun c m' hn hm => by rw [hn] at hm; cases hm⟩

theorem Beside.trans (h : Beside account ms ms') (h' : Beside account ms' ms'') : Beside account ms ms'' := by
  refine ⟨fun c m hm => ?_, fun c m'' hn hm'' => ?_⟩
  · obtain ⟨m₁, hm₁, ha₁, hk₁⟩ := h.kept c m hm
    obtain ⟨m₂, hm₂, ha₂, hk₂⟩ := h'.kept c m₁ hm₁
    refine ⟨m₂, hm₂, ha₂.trans ha₁, fun ha => ?_⟩
    have hx := hk₁ ha
    have hy := hk₂ (ha₁.trans ha)
    exact ⟨hy.1.trans hx.1, hy.2.trans hx.2⟩
  · cases hc : ms'.find c with
    | none => exact h'.new c m'' hc hm''
    | some m' =>
      obtain ⟨hplace, hidle⟩ := h.new c m' hn hc
      obtain ⟨m₂, hm₂, ha₂, hk₂⟩ := h'.kept c m' hc
      cases hm₂.symm.trans hm''
      refine ⟨ha₂ ▸ hplace, fun ha => ?_⟩
      have ha' : m'.slaveAccountId = account := ha₂ ▸ ha
      exact ⟨fun hact => (hidle ha').1 ((hk₂ ha').1.1 hact), (hk₂ ha').2.trans (hidle ha').2⟩

/-- Rows are rewritten in their places, the account's without a change to what they hold. -/
theorem Beside.of_rewrites {R : Mapping → Mapping → Prop} (h : Rewrites R ms ms')
    (hR : ∀ m m', R m m' → m'.slaveAccountId = m.slaveAccountId ∧
      (m.slaveAccountId = account → (m'.status = .active ↔ m.status = .active) ∧ m'.held = m.held)) :
    Beside account ms ms' := by
  refine ⟨fun c m hm => ?_, fun c m' hn hm' => ?_⟩
  · obtain ⟨m', hm', hr⟩ := h.evolves c m hm
    exact ⟨m', hm', hR m m' hr⟩
  · have hkeys : ms'.rows.map Mapping.clientOrderId = ms.rows.map Mapping.clientOrderId := h.keys
    obtain ⟨hmem, rfl⟩ := find_eq_some hm'
    have hin : m'.clientOrderId ∈ ms.rows.map Mapping.clientOrderId := hkeys ▸ mem_map_of_mem hmem
    obtain ⟨m, hm, hc⟩ := mem_map.1 hin
    exact absurd hc (find_eq_none.1 hn m hm)

theorem beside_insert (account : ℕ) {c : ClientOrderId} {a : ℕ} (hc : c.account = some a) (p o : Option ℕ)
    (ms : Mappings) : Beside account ms (ms.insert (pendingRow c a p o)) := by
  refine ⟨fun c' m hm => ⟨m, ?_, rfl, fun _ => ⟨.rfl, rfl⟩⟩, fun c' m' hn hm' => ?_⟩
  · rw [find_insert, hm]
    split_ifs <;> rfl
  · rw [find_insert, hn] at hm'
    split_ifs at hm' with hk
    cases hm'
    rw [← hk]
    exact ⟨hc, fun _ => ⟨nofun, rfl⟩⟩

theorem beside_dispatch (account : ℕ) (gates : Org) (is : List SlaveIntent) (ms : Mappings) :
    Beside account ms (Copier.dispatch gates is ms).1 := by
  refine dispatch_rel (.refl account) .trans (fun l ms => ?_)
    (fun p o ms hc => beside_insert account hc p o ms) gates is ms
  refine .of_rewrites (R := fun m m' => ∃ q, m' = { m with masterPositionId := q })
    (rewrites_updateFound (fun m => ⟨_, rfl⟩) (fun m _ => ⟨_, rfl⟩) ms) ?_
  rintro m _ ⟨q, rfl⟩
  exact ⟨rfl, fun _ => ⟨.rfl, rfl⟩⟩

/-- **What happens beside the account changes no share.** -/
theorem Beside.sum_share (h : Beside account ms ms') (hs : Sound account rows ms)
    (hside : ∀ c x, openPayload rows c = some x → openPayload rows' c = some x) (symbol : String) :
    ms'.sum (share account rows' symbol) = ms.sum (share account rows symbol) := by
  refine sum_congr_find fun c => ?_
  cases hm : ms.find c with
  | none =>
    cases hm' : ms'.find c with
    | none => rfl
    | some m' =>
      obtain ⟨-, hidle⟩ := h.new c m' hm hm'
      show share account rows' symbol m' = 0
      exact if_neg fun hx => (hidle hx.1).1 hx.2
  | some m =>
    obtain ⟨m', hm', hacc, hk⟩ := h.kept c m hm
    obtain ⟨hmem, hkey⟩ := find_eq_some hm
    have hkey' : m'.clientOrderId = m.clientOrderId := (find_eq_some hm').2.trans hkey.symm
    rw [hm']
    show share account rows' symbol m' = share account rows symbol m
    unfold share
    rw [hacc]
    by_cases ha : m.slaveAccountId = account
    · by_cases hact : m.status = .active
      · obtain ⟨x, hx⟩ := isSome_iff_exists.1 (hs.sided m hmem ha hact)
        have hvol : m'.volume = m.volume := by rw [Mapping.volume, Mapping.volume, (hk ha).2]
        rw [if_pos ⟨ha, (hk ha).1.2 hact⟩, if_pos ⟨ha, hact⟩, hkey', hside _ x hx, hx, hvol]
      · rw [if_neg fun hx => hact ((hk ha).1.1 hx.2), if_neg fun hx => hact hx.2]
    · rw [if_neg fun hx => ha hx.1, if_neg fun hx => ha hx.1]

theorem Sound.beside (hs : Sound account rows ms) (h : Beside account ms ms')
    (hside : ∀ c x, openPayload rows c = some x → openPayload rows' c = some x) : Sound account rows' ms' := by
  -- a mapping is what it was, or new
  have hrow : ∀ m' ∈ ms'.rows, (∃ m ∈ ms.rows, m.clientOrderId = m'.clientOrderId ∧
      m'.slaveAccountId = m.slaveAccountId ∧
      (m.slaveAccountId = account → (m'.status = .active ↔ m.status = .active) ∧ m'.held = m.held)) ∨
      m'.clientOrderId.account = some m'.slaveAccountId ∧
        (m'.slaveAccountId = account → m'.status ≠ .active ∧ m'.held = none) := by
    intro m' hm'
    have hfind' : ms'.find m'.clientOrderId = some m' := find_of_mem hm'
    cases hm : ms.find m'.clientOrderId with
    | none => exact .inr (h.new _ m' hm hfind')
    | some m =>
      obtain ⟨m₁, hm₁, hx⟩ := h.kept _ m hm
      cases hm₁.symm.trans hfind'
      exact .inl ⟨m, (find_eq_some hm).1, (find_eq_some hm).2, hx⟩
  refine ⟨fun m' hm' => ?_, fun m' hm' ha hst => ?_, fun m' hm' ha hst => ?_⟩
  · rcases hrow m' hm' with ⟨m, hm, hc, hacc, -⟩ | ⟨hplace, -⟩
    · rw [← hc, hacc]
      exact hs.placed m hm
    · exact hplace
  · rcases hrow m' hm' with ⟨m, hm, -, hacc, hk⟩ | ⟨-, hidle⟩
    · have hx := hk (hacc ▸ ha)
      rw [Mapping.volume, hx.2]
      exact hs.idle m hm (hacc ▸ ha) fun hact => hst (hx.1.2 hact)
    · rw [Mapping.volume, (hidle ha).2]
      rfl
  · rcases hrow m' hm' with ⟨m, hm, hc, hacc, hk⟩ | ⟨-, hidle⟩
    · obtain ⟨x, hx⟩ := isSome_iff_exists.1
        (hs.sided m hm (hacc ▸ ha) ((hk (hacc ▸ ha)).1.1 hst))
      rw [← hc, hside _ x hx]
      rfl
    · exact absurd hst (hidle ha).1

end Beside

/-! ### Reports -/

theorem polled_open {now : ℚ} (h : (r.polled account now).isOpen = true) : r.isOpen = true := by
  by_contra hno
  rw [polled_settled (by simpa using hno)] at h
  exact hno h

namespace Server

variable {cfg : ServerConfig} {gates : Org} {now : ℚ} {account account' : ℕ} {report : FollowerReport} {s : Server}

/-- A report keeps the labels, settles rows of its own account only and queues amends. -/
theorem sync_keeps (cfg : ServerConfig) (gates : Org) (now : ℚ) (account : ℕ) (report : FollowerReport)
    (hn : Numbered s.rows) :
    ∃ (g : CommandRow → CommandRow) (new : List CommandRow),
      (s.sync cfg gates now account report).1.rows = s.rows.map g ++ new ∧
      (∀ r ∈ s.rows, SameLabel r (g r)) ∧ (∀ r ∈ s.rows, (g r).isOpen = true → r.isOpen = true) ∧
      (∀ r ∈ s.rows, r.accountId ≠ account → g r = r) ∧
      (∀ r ∈ s.rows, r.accountId = account → r.id ∈ report.acks.map Ack.commandId → (g r).isOpen = false) ∧
      ∀ r ∈ new, r.accountId = account ∧ r.payload.kind = .amend ∧ r.clientOrderId = none ∧ r.closing = false := by
  obtain ⟨f, hf, hcases⟩ := applyAcks_cases account hn report.acks
  obtain ⟨new, hrows, hnew⟩ : Amends account (applyAcks account s.rows report.acks).1
    (s.booked cfg gates now account report).rows := amends_booked
  have hset : ∀ r ∈ s.rows, Settles r (f r) := by
    intro r hr
    rcases hcases r hr with ⟨he, -⟩ | ⟨ho, -, k, -, -, he, -⟩
    · exact .inl he
    · exact .inr ⟨ho, k.result.ok, he⟩
  refine ⟨fun r => (f r).polled account now, new.map (polled account now), ?_, fun r hr => ?_,
    fun r hr ho => ?_, fun r hr ha => ?_, fun r hr ha hid => ?_, fun r' hr' => ?_⟩
  · rw [sync_booked]
    simp only [deliver, deliverable, unexpired, List.map_map, hrows, hf, List.map_append]
    rfl
  · exact (settles_same (hset r hr)).trans (polled_same account now (f r))
  · have hfo := polled_open ho
    rcases hset r hr with he | ⟨ho', -⟩
    · rwa [he] at hfo
    · exact ho'
  · rcases hcases r hr with ⟨he, -⟩ | ⟨-, ha', -⟩
    · simp only [he]
      exact polled_foreign ha
    · exact absurd ha' ha
  · have hclosed : (f r).isOpen = false := by
      rcases hcases r hr with ⟨he, hno⟩ | ⟨-, -, k, -, -, he, -⟩
      · obtain ⟨k, hk, hkid⟩ := mem_map.1 hid
        rw [he]
        by_contra ho
        exact hno (by simpa using ho) ha k hk hkid
      · rw [he]
        exact isOpen_settled _
    dsimp only
    rw [polled_settled hclosed]
    exact hclosed
  · obtain ⟨r, hr, rfl⟩ := mem_map.1 hr'
    have hs := polled_same account now r
    have hamend := hnew r hr
    exact ⟨hs.accountId.trans hamend.accountId, hs.payload ▸ hamend.kind,
      hs.clientOrderId.trans hamend.clientOrderId,
      hs.closing.trans hamend.closing⟩

theorem onlyCopies_sync (h : OnlyCopies account s.rows) (hn : Numbered s.rows) :
    OnlyCopies account (s.sync cfg gates now account' report).1.rows := by
  obtain ⟨g, new, hrows, hlabel, hopen, -, -, hnew⟩ := sync_keeps cfg gates now account' report hn
  rw [hrows]
  exact h.keeps hlabel hopen (fun r hr => (hnew r hr).2.2.1) fun r hr _ => (hnew r hr).2.1

theorem opposed_sync (h : Opposed s.rows) (hn : Numbered s.rows) :
    Opposed (s.sync cfg gates now account report).1.rows := by
  obtain ⟨g, new, hrows, hlabel, -, -, -, hnew⟩ := sync_keeps cfg gates now account report hn
  rw [hrows]
  exact h.keeps hlabel (fun r hr => (hnew r hr).2.2.1) fun r hr => (hnew r hr).2.2.2

theorem openPayload_sync (hn : Numbered s.rows) (c : ClientOrderId) :
    openPayload (s.sync cfg gates now account report).1.rows c = openPayload s.rows c := by
  obtain ⟨g, new, hrows, hlabel, -, -, -, hnew⟩ := sync_keeps cfg gates now account report hn
  rw [hrows]
  exact openPayload_keeps hlabel (fun r hr => (hnew r hr).2.2.1) c

/-- A report of another account. -/
theorem apart_sync (hn : Numbered s.rows) (hne : account' ≠ account) :
    Apart account s.rows (s.sync cfg gates now account' report).1.rows := by
  obtain ⟨g, new, hrows, hlabel, -, hkeep, -, hnew⟩ := sync_keeps cfg gates now account' report hn
  refine ⟨g, new, hrows, hlabel, fun r hr ha => hkeep r hr (ha ▸ hne.symm), fun r hr ha => ?_⟩
  exact absurd ((hnew r hr).1.symm.trans ha) hne

/-- A mapping of the account is left alone. -/
def LeftAlone (account : ℕ) (m m' : Mapping) : Prop :=
  m'.slaveAccountId = m.slaveAccountId ∧ (m.slaveAccountId = account → m' = m)

theorem follows_leftAlone (hne : account' ≠ account) : Follows account' (LeftAlone account) where
  refl _ := ⟨rfl, fun _ => rfl⟩
  trans _ _ _ h h' := ⟨h'.1.trans h.1, fun ha => (h'.2 (h.1.trans ha)).trans (h.2 ha)⟩
  accumulate _ _ _ ha := ⟨rfl, fun ha' => absurd (ha.symm.trans ha') hne⟩
  reduce _ _ ha _ := ⟨rfl, fun ha' => absurd (ha.symm.trans ha') hne⟩
  fill _ _ _ ha := ⟨rfl, fun ha' => absurd (ha.symm.trans ha') hne⟩
  accept _ _ ha := ⟨rfl, fun ha' => absurd (ha.symm.trans ha') hne⟩
  close _ ha := ⟨rfl, fun ha' => absurd (ha.symm.trans ha') hne⟩
  fail _ ha := ⟨rfl, fun ha' => absurd (ha.symm.trans ha') hne⟩

theorem beside_sync (hne : account' ≠ account) :
    Beside account s.service.mappings (s.sync cfg gates now account' report).1.service.mappings := by
  have hR := follows_leftAlone hne
  rw [sync_booked]
  refine .of_rewrites ((rewrites_booked hR).trans hR.trans (rewrites_deliver hR)) fun m m' hr =>
    ⟨hr.1, fun ha => ?_⟩
  rw [hr.2 ha]
  exact ⟨.rfl, rfl⟩

/-- A mapping whose open has expired is failed if it was pending. -/
def Expires (m m' : Mapping) : Prop := m' = m ∨ m.status = .pending ∧ m' = { m with status := .failed }

theorem expires_trans (m₁ m₂ m₃ : Mapping) (h : Expires m₁ m₂) (h' : Expires m₂ m₃) : Expires m₁ m₃ := by
  rcases h with rfl | ⟨hp, rfl⟩
  · exact h'
  · rcases h' with rfl | ⟨hp', -⟩
    · exact .inr ⟨hp, rfl⟩
    · cases hp'

theorem expireMappings_rewrites (ms : Mappings) : Rewrites Expires ms (s.expireMappings now account ms) := by
  unfold expireMappings
  generalize s.rows.filter (fun r => r.stale account now) = rs
  induction rs generalizing ms with
  | nil => exact .refl (fun m => .inl rfl) ms
  | cons r rs ih =>
    refine Rewrites.trans expires_trans ?_ (ih _)
    dsimp only
    split
    · refine rewrites_updateWhere (fun m => .inl rfl) (fun m hm => .inr ⟨?_, rfl⟩) ms
      simp only [Bool.and_eq_true, decide_eq_true_eq] at hm
      exact hm.2
    · exact .refl (fun m => .inl rfl) ms

/-- A command that is given up is no open of a copy. -/
theorem giveUpMappings_eq (hex : ∀ r ∈ s.rows, r.clientOrderId.isSome = true → r.closing = false →
    r.exhausted account now = true → r.stale account now = true) (ms : Mappings) :
    s.giveUpMappings now account ms = ms := by
  unfold giveUpMappings
  have hrow : ∀ r ∈ (unexpired account now s.rows).filter fun r => r.exhausted account now,
      r.clientOrderId = none ∨ r.closing = true := by
    intro r hr
    obtain ⟨hr, hexh⟩ := mem_filter.1 hr
    obtain ⟨r₀, hr₀, rfl⟩ := mem_map.1 hr
    -- an expired row is not given up
    have hfresh : r₀.stale account now = false := by
      by_contra hstale
      rw [failStale, if_pos (by simpa using hstale)] at hexh
      simp [exhausted] at hexh
    have hsame : r₀.failStale account now = r₀ := if_neg (by simp [hfresh])
    rw [hsame] at hexh ⊢
    by_contra hno
    rw [not_or, ← ne_eq, ne_none_iff_isSome, Bool.not_eq_true] at hno
    rw [hex r₀ hr₀ hno.1 hno.2 hexh] at hfresh
    cases hfresh
  refine (foldl_ext _ (fun ms _ => ms) ms fun ms r hr => ?_).trans (foldl_fixed _)
  rcases hrow r hr with hc | hx
  · rw [hc]
  · split
    · rw [if_pos hx]
    · rfl

/-- Where no open of a copy is given up, a delivery changes nothing that a mapping holds. -/
theorem beside_deliver (account' : ℕ) (hex : ∀ r ∈ s.rows, r.clientOrderId.isSome = true → r.closing = false →
    r.exhausted account now = true → r.stale account now = true) :
    Beside account' s.service.mappings (s.deliver now account).1.service.mappings := by
  show Beside account' _ (s.giveUpMappings now account (s.expireMappings now account s.service.mappings))
  rw [giveUpMappings_eq hex]
  refine .of_rewrites (expireMappings_rewrites s.service.mappings) fun m m' hr => ?_
  rcases hr with rfl | ⟨hp, rfl⟩
  · exact ⟨rfl, fun _ => ⟨.rfl, rfl⟩⟩
  · exact ⟨rfl, fun _ => ⟨by simp [hp], rfl⟩⟩

/-! ### The watermark -/

theorem settle_watermark : (s.settle cfg gates now account report).watermark = s.watermark :=
  outcomes_rel (R := fun s s' => s'.watermark = s.watermark) (fun _ => rfl) (fun h h' => h'.trans h)
    Books.watermark _
    { s with rows := _ }

/-- The watermark after a report. -/
theorem sync_watermark : (s.sync cfg gates now account report).1.watermark =
    Function.update s.watermark account
      (((s.settle cfg gates now account report).freshDeals account report).map ReportDeal.ticket |>.foldl max
        (s.watermark account)) := by
  show ((s.settle cfg gates now account report).ingest cfg gates now account report _).watermark = _
  simp only [ingest, slaveDeals]
  split_ifs
  · rw [settle_watermark]
  · simp only [← @settle_watermark cfg gates now account report s]
    refine foldlRecOn (motive := fun s' : Server => s'.watermark = _) _ _ ?_ fun _ h d _ => ?_
    · rfl
    · exact (books_bookDeal _ _ d).watermark.trans h

variable (cfg gates now account report s) in
/-- A report's deals are behind the watermark afterwards. -/
theorem le_sync_watermark : s.watermark account ≤ (s.sync cfg gates now account report).1.watermark account ∧
    ∀ d ∈ report.deals, d.ticket ≤ (s.sync cfg gates now account report).1.watermark account := by
  rw [sync_watermark, Function.update_self]
  have hle := foldl_max_le.1 (le_refl (((s.settle cfg gates now account report).freshDeals account report).map
    ReportDeal.ticket |>.foldl max (s.watermark account)))
  refine ⟨hle.1, fun d hd => ?_⟩
  by_cases hw : s.watermark account < d.ticket
  · refine hle.2 _ (mem_map_of_mem (mem_freshDeals.2 ⟨hd, ?_⟩))
    rwa [settle_watermark]
  · exact (not_lt.1 hw).trans hle.1

end Server

end Copier.Mt5
