import CopyTrading.Copier.Consistent

/-!
# Copier.Reachable — the row of a live copy

What a slave's platform reports about its copies, as the handlers book it, next to the truth: the
volume filled minus the volume closed under each client order id, and the positions it sits in.  Eight
statements write the rows; a failed increase, a cancel of an order that already filled and a second
partial fill of a pending order take the row of a live copy out of the master's reach.
-/

namespace Copier

open Option Table

/-- What a copy really holds. -/
structure Live where
  /-- Volume filled minus volume closed. -/
  volume : ℕ
  /-- The positions its fills went into since it was last flat. -/
  tickets : List ℕ
  deriving DecidableEq

def Live.none : Live := ⟨0, []⟩

/-- A fill under ticket `π`. -/
def Live.fill (π v : ℕ) (l : Live) : Live := ⟨l.volume + v, if l.volume = 0 then [π] else π :: l.tickets⟩

def Live.close (k : ℕ) (l : Live) : Live := { l with volume := l.volume - k }

/-- The copier's books of one slave account, and what its copies really hold. -/
structure Follower where
  service : Service
  live : ClientOrderId → Live

/-- Nothing has been copied. -/
def Follower.init : Follower := ⟨⟨.empty, []⟩, fun _ => .none⟩

/-- What happens to the copies of a slave. -/
inductive CopyEvent where
  /-- The copier dispatches an open, an increase, a pending order or a link. -/
  | request (i : SlaveIntent)
  /-- A fill of copy `c`, reported under its client order id or (a pending order) under its order. -/
  | filled (c : ClientOrderId) (fill : SlaveFill)
  /-- A close of copy `c`, reported under its client order id or its position. -/
  | closed (c : ClientOrderId) (fill : SlaveFill)
  | accepted (c : ClientOrderId) (ω : ℕ)
  /-- An order is cancelled, or a cancel is acknowledged again. -/
  | cancelled (ω : ℕ)
  | rejected (c : Option ClientOrderId)
  /-- The outbox gives up on a command nobody acknowledged. -/
  | gaveUp (c : Option ClientOrderId)
  /-- The outbox expires an open that was never delivered. -/
  | expired (c : ClientOrderId)

/-- One event of slave `a`, as the handlers book it. -/
def Follower.fire (a : ℕ) : CopyEvent → Follower → Option Follower
  | .request i, s =>
    if i.slaveAccountId = a then
      some { s with service := { s.service with mappings := (dispatchOne .live i s.service.mappings).1 } }
    else none
  | .filled c fill, s =>
    if fill.closedVolume = none ∧ 0 < fill.filledVolume ∧ (s.service.mappings.find c).isSome ∧
        (fill.clientOrderId = some c ∨ fill.clientOrderId = none ∧ c.isMarketCopy = false) then
      some ⟨(s.service.handleSlaveFill .live a fill).1,
        Function.update s.live c ((s.live c).fill fill.positionId fill.filledVolume)⟩
    else none
  | .closed c fill, s =>
    match fill.closedVolume with
    | none => none
    | some k =>
      if k ≤ (s.live c).volume ∧ (fill.clientOrderId = some c ∨ fill.clientOrderId = none) then
        some ⟨(s.service.handleSlaveFill .live a fill).1,
          Function.update s.live c ((s.live c).close k)⟩
      else none
  | .accepted c ω, s =>
    -- a platform gives every order its own id
    if ∀ m ∈ s.service.mappings.rows, m.slaveOrderId = some ω → m.clientOrderId = c then
      some { s with service := s.service.handleSlaveOrderAccepted a (some c) ω }
    else none
  | .cancelled ω, s => some { s with service := s.service.handleSlaveOrderCancelled a ω }
  | .rejected c, s => some { s with service := s.service.handleSlaveRejection a c }
  | .gaveUp c, s => some { s with service := s.service.handleSlaveRejection a c }
  | .expired c, s =>
    some { s with service := { s.service with mappings := failStaleOpen a c s.service.mappings } }

/-- Nothing fails, and no order is cancelled, while its copy is live; an increase fills the position
the copy holds; a pending order is accepted before it fills, and fills in one piece; a close hits no
other live copy. -/
def CopyEvent.Clean (a : ℕ) : CopyEvent → Follower → Prop
  | .filled c fill, s =>
    if c.isMarketCopy then
      (s.live c).volume = 0 ∨ ∀ π ∈ (s.live c).tickets, π = fill.positionId
    else (s.live c).volume = 0 ∧
      ∃ m ∈ s.service.mappings.rows, m.clientOrderId = c ∧ m.isOrder a fill.orderId
  | .closed c fill, s => ∀ m ∈ s.service.mappings.rows, m.isReduced a fill.positionId fill.pinned →
      m.clientOrderId = c ∨ (s.live m.clientOrderId).volume = 0
  | .cancelled ω, s => ∀ m ∈ s.service.mappings.rows, m.isOrder a (some ω) →
      (s.live m.clientOrderId).volume = 0
  | .rejected c, s => ∀ c' ∈ c, (s.live c').volume = 0
  | .gaveUp c, s => ∀ c' ∈ c, (s.live c').volume = 0
  | _, _ => True

instance (a : ℕ) : ∀ (e : CopyEvent) (s : Follower), Decidable (e.Clean a s)
  | .filled c _, _ => inferInstanceAs (Decidable (if c.isMarketCopy then _ else _))
  | .closed _ _, s => inferInstanceAs (Decidable (∀ m ∈ s.service.mappings.rows, _ → _))
  | .cancelled _, s => inferInstanceAs (Decidable (∀ m ∈ s.service.mappings.rows, _ → _))
  | .rejected c, _ => inferInstanceAs (Decidable (∀ c' ∈ c, _))
  | .gaveUp c, _ => inferInstanceAs (Decidable (∀ c' ∈ c, _))
  | .request _, _ => isTrue trivial
  | .accepted _ _, _ => isTrue trivial
  | .expired _, _ => isTrue trivial

/-! ### The invariant -/

/-- The row is on the position the copy's volume sits in, and says at least that volume. -/
structure Tracked (l : Live) (m : Mapping) : Prop where
  active : m.status = .active
  ticket : ∃ π, m.slavePositionId = some π ∧ ∀ π' ∈ l.tickets, π' = π
  volume : l.volume ≤ m.volume

structure Follower.Tracks (a : ℕ) (s : Follower) : Prop where
  idents : Idents s.service.mappings
  account : ∀ c m, s.service.mappings.find c = some m → m.slaveAccountId = a
  orders : ∀ c c' m m' ω, s.service.mappings.find c = some m → s.service.mappings.find c' = some m' →
    m.slaveOrderId = some ω → m'.slaveOrderId = some ω → c = c'
  row : ∀ c, 0 < (s.live c).volume → ∃ m, s.service.mappings.find c = some m ∧ Tracked (s.live c) m

/-- An update that touches the slave's columns only, row by row. -/
structure Rewrites (g : Mapping → Mapping) : Prop where
  account : ∀ m, (g m).slaveAccountId = m.slaveAccountId
  position : ∀ m, (g m).masterPositionId = m.masterPositionId
  order : ∀ m, (g m).masterOrderId = m.masterOrderId

section Keep

variable {a : ℕ} {s : Follower} {st : Service} {live : ClientOrderId → Live} {c : ClientOrderId}
  {g : Mapping → Mapping} {m : Mapping} {P : Mapping → Bool} {fill : SlaveFill}

theorem Ident.rewrites (hg : Rewrites g) (h : Ident c m) : Ident c (g m) := by
  cases c with
  | cm p b => exact ⟨(hg.account m).trans h.1, (hg.position m).trans h.2.1, (hg.order m).trans h.2.2⟩
  | co o b => exact ⟨(hg.account m).trans h.1, (hg.order m).trans h.2⟩
  | other y => exact h

theorem Rewrites.bookRow (r : Report) : Rewrites (bookRow a r) where
  account _ := bookRow_slaveAccountId
  position _ := bookRow_masterPositionId
  order _ := bookRow_masterOrderId

theorem Rewrites.ite (hg : Rewrites g) : Rewrites fun m => if P m then g m else m where
  account m := by
    split_ifs
    · exact hg.account m
    · rfl
  position m := by
    split_ifs
    · exact hg.position m
    · rfl
  order m := by
    split_ifs
    · exact hg.order m
    · rfl

/-- A statement that updates rows keeps the invariant if it keeps every live copy's row. -/
theorem Follower.Tracks.rewrite (h : s.Tracks a)
    (hfind : ∀ c, st.mappings.find c = (s.service.mappings.find c).map g) (hg : Rewrites g)
    (horder : ∀ c c' m m' ω, s.service.mappings.find c = some m →
      s.service.mappings.find c' = some m' → (g m).slaveOrderId = some ω →
      (g m').slaveOrderId = some ω → c = c')
    (hrow : ∀ c, 0 < (live c).volume → ∃ m, s.service.mappings.find c = some m ∧
      Tracked (live c) (g m)) : Follower.Tracks a ⟨st, live⟩ where
  idents c m hm := by
    rw [hfind] at hm
    obtain ⟨m₀, hm₀, rfl⟩ := map_eq_some_iff.1 hm
    exact (h.idents c m₀ hm₀).rewrites hg
  account c m hm := by
    change st.mappings.find c = some m at hm
    rw [hfind] at hm
    obtain ⟨m₀, hm₀, rfl⟩ := map_eq_some_iff.1 hm
    exact (hg.account m₀).trans (h.account c m₀ hm₀)
  orders c c' m m' ω hm hm' hω hω' := by
    change st.mappings.find c = some m at hm
    change st.mappings.find c' = some m' at hm'
    rw [hfind] at hm hm'
    obtain ⟨m₀, hm₀, rfl⟩ := map_eq_some_iff.1 hm
    obtain ⟨m₁, hm₁, rfl⟩ := map_eq_some_iff.1 hm'
    exact horder c c' m₀ m₁ ω hm₀ hm₁ hω hω'
  row c hc := by
    obtain ⟨m, hm, ht⟩ := hrow c hc
    refine ⟨g m, ?_, ht⟩
    show st.mappings.find c = some (g m)
    rw [hfind, hm]
    rfl

theorem Follower.Tracks.request (h : s.Tracks a) {i : SlaveIntent} (hi : i.slaveAccountId = a) :
    Follower.Tracks a { s with
      service := { s.service with mappings := (dispatchOne .live i s.service.mappings).1 } } := by
  have hd := dispatched_one i s.service.mappings
  -- a row is an old one up to its link, or untouched
  have hcases : ∀ c m', (dispatchOne .live i s.service.mappings).1.find c = some m' →
      (∃ m, s.service.mappings.find c = some m ∧ m'.slaveOrderId = m.slaveOrderId ∧
        m'.slaveAccountId = m.slaveAccountId) ∨
      (m'.slaveOrderId = none ∧ m'.slaveAccountId = a) := by
    intro c m' hm'
    cases hc : s.service.mappings.find c with
    | some m =>
      obtain ⟨q, hq, -⟩ := hd.keeps c m hc
      cases hq.symm.trans hm'
      exact .inl ⟨m, rfl, rfl, rfl⟩
    | none =>
      obtain ⟨hid, hun, j, hj, hjc⟩ := hd.new c m' hc hm'
      obtain rfl := List.mem_singleton.1 (hd.sent_sub hj)
      refine .inr ⟨hun.2.2, ?_⟩
      cases j with
      | openMarket x | placePending x =>
        cases hjc
        exact hid.1.trans hi
      | _ => simp [clientOrderIdFor] at hjc
  refine ⟨hd.idents h.idents, fun c m' hm' => ?_, fun c c' m m' ω hm hm' hω hω' => ?_, fun c hc => ?_⟩
  · rcases hcases c m' hm' with ⟨m, hm, -, hacc⟩ | ⟨-, hacc⟩
    · exact hacc.trans (h.account c m hm)
    · exact hacc
  · rcases hcases c m hm with ⟨m₀, hm₀, ho, -⟩ | ⟨ho, -⟩
    · rcases hcases c' m' hm' with ⟨m₁, hm₁, ho', -⟩ | ⟨ho', -⟩
      · exact h.orders c c' m₀ m₁ ω hm₀ hm₁ (ho.symm.trans hω) (ho'.symm.trans hω')
      · rw [ho'] at hω'
        simp at hω'
    · rw [ho] at hω
      simp at hω
  · obtain ⟨m, hm, ht⟩ := h.row c hc
    obtain ⟨q, hq, -⟩ := hd.keeps c m hm
    exact ⟨_, hq, ht.active, ht.ticket, ht.volume⟩

/-- The ids of orders are written by acceptances alone. -/
theorem bookRow_filled_order (fill : SlaveFill) (m : Mapping) :
    (bookRow a (.filled fill) m).slaveOrderId = m.slaveOrderId := by
  unfold bookRow
  split_ifs
  · simp only [Report.sets]
    cases fill.closedVolume with
    | some k => rfl
    | none =>
      cases fill.pinned with
      | some c | none => rfl
  · rfl

theorem Follower.Tracks.filled (h : s.Tracks a)
    (hrow : ∀ c, 0 < (live c).volume → ∃ m, s.service.mappings.find c = some m ∧
      Tracked (live c) (bookRow a (.filled fill) m)) :
    Follower.Tracks a ⟨(s.service.handleSlaveFill .live a fill).1, live⟩ := by
  refine h.rewrite (fun c => find_handleReport (.filled fill)) (Rewrites.bookRow _) ?_ hrow
  intro c c' m m' ω hm hm' hω hω'
  rw [bookRow_filled_order] at hω hω'
  exact h.orders c c' m m' ω hm hm' hω hω'

/-- The row of a copy that is filled. -/
theorem tracked_fill (h : s.Tracks a)
    (hm : s.service.mappings.find c = some m) (hk : fill.closedVolume = none)
    (hname : fill.clientOrderId = some c ∨ fill.clientOrderId = none ∧ c.isMarketCopy = false)
    (hok : CopyEvent.Clean a (.filled c fill) s) :
    Tracked ((s.live c).fill fill.positionId fill.filledVolume) (bookRow a (.filled fill) m) := by
  have hmc : m.clientOrderId = c := (find_eq_some hm).2
  simp only [CopyEvent.Clean] at hok
  cases hmk : c.isMarketCopy with
  | true =>
    -- the volume is added to what the row says
    rw [if_pos hmk] at hok
    have hid : fill.clientOrderId = some c := by
      rcases hname with hid | ⟨-, hf⟩
      · exact hid
      · rw [hmk] at hf
        simp at hf
    have hp : fill.pinned = some c := by simp [SlaveFill.pinned, hid, hmk]
    have hhit : m.isCopy a c := by simp [Mapping.isCopy, hmc, h.account c m hm]
    rw [bookRow_market hk hp]
    simp only [hhit, if_true]
    refine ⟨rfl, ⟨fill.positionId, rfl, ?_⟩, ?_⟩
    · intro π hπ
      simp only [Live.fill] at hπ
      split_ifs at hπ with h0
      · exact List.mem_singleton.1 hπ
      · rcases List.mem_cons.1 hπ with rfl | hπ
        · rfl
        · exact (hok.resolve_left h0) π hπ
    · show (s.live c).volume + fill.filledVolume ≤ m.volume + fill.filledVolume
      rcases Nat.eq_zero_or_pos (s.live c).volume with h0 | h0
      · omega
      · obtain ⟨m', hm', ht⟩ := h.row c h0
        cases hm.symm.trans hm'
        have := ht.volume
        omega
  | false =>
    -- the volume is assigned
    rw [if_neg (by simp [hmk])] at hok
    obtain ⟨h0, m', hm', hmc', hord⟩ := hok
    obtain rfl : m' = m := eq_of_find hm hm' hmc'
    have hp : fill.pinned = none := by
      rcases hname with hid | ⟨hid, -⟩
      · simp [SlaveFill.pinned, hid, hmk]
      · simp [SlaveFill.pinned, hid]
    rw [bookRow_pending hk hp]
    simp only [hord, if_true]
    refine ⟨rfl, ⟨fill.positionId, rfl, ?_⟩, ?_⟩
    · intro π hπ
      simp only [Live.fill, if_pos h0] at hπ
      exact List.mem_singleton.1 hπ
    · simp [Live.fill, Mapping.volume, h0]

/-- A fill of one copy leaves the row of another. -/
theorem bookRow_fill_other (h : s.Tracks a) {c' : ClientOrderId}
    (hm : s.service.mappings.find c' = some m) (hne : c' ≠ c) (hk : fill.closedVolume = none)
    (hname : fill.clientOrderId = some c ∨ fill.clientOrderId = none ∧ c.isMarketCopy = false)
    (hok : CopyEvent.Clean a (.filled c fill) s) : bookRow a (.filled fill) m = m := by
  have hmc : m.clientOrderId = c' := (find_eq_some hm).2
  simp only [CopyEvent.Clean] at hok
  cases hp : fill.pinned with
  | some x =>
    rw [bookRow_market hk hp]
    refine if_neg fun hh => hne ?_
    simp only [Mapping.isCopy, Bool.and_eq_true, decide_eq_true_eq] at hh
    rcases hname with hid | ⟨hid, -⟩
    · have hx := names_of_pinned hp
      rw [hid] at hx
      rw [← hmc, hh.1, ← some.inj hx]
    · simp [SlaveFill.pinned, hid] at hp
  | none =>
    rw [bookRow_pending hk hp]
    refine if_neg fun hh => hne ?_
    have hmk : c.isMarketCopy = false := by
      rcases hname with hid | ⟨-, hf⟩
      · simpa [SlaveFill.pinned, hid, Option.filter] using hp
      · exact hf
    rw [if_neg (by simp [hmk])] at hok
    obtain ⟨-, m₀, hm₀, hmc₀, hord⟩ := hok
    have hfind : s.service.mappings.find c = some m₀ := by
      have := find_of_mem hm₀
      rwa [key_mapping, hmc₀] at this
    simp only [Mapping.isOrder, Bool.and_eq_true, decide_eq_true_eq] at hh hord
    obtain ⟨ω, hω⟩ := isSome_iff_exists.1 hh.1.1.2
    refine h.orders c' c m m₀ ω hm hfind hω ?_
    rw [hord.1.2, ← hh.1.2]
    exact hω

theorem Tracked.reduce {l : Live} (h : Tracked l m) {k : ℕ} (hk : k < l.volume) :
    Tracked (l.close k) (m.reduce k) := by
  obtain ⟨hact, ⟨π, hπ, ht⟩, hv⟩ := h
  obtain ⟨w, hw, hid⟩ := map_eq_some_iff.1 hπ
  have hwv : m.volume = w.slaveVolume := by simp [Mapping.volume, hw]
  refine ⟨?_, ⟨π, ?_, ht⟩, ?_⟩
  · have hlt : ¬ w.slaveVolume ≤ k := by omega
    simp [Mapping.reduce, hw, hlt]
  · simp [Mapping.reduce, Mapping.slavePositionId, hw, hid]
  · simp only [Live.close, Mapping.reduce, Mapping.volume, hw, map_some, getD_some]
    omega

/-- The row of a copy that is closed in part. -/
theorem tracked_close (h : s.Tracks a) {k : ℕ} (hk : fill.closedVolume = some k)
    (hlt : k < (s.live c).volume) : ∃ m, s.service.mappings.find c = some m ∧
      Tracked ((s.live c).close k) (bookRow a (.filled fill) m) := by
  obtain ⟨m, hm, ht⟩ := h.row c (by omega)
  refine ⟨m, hm, ?_⟩
  rw [bookRow_close hk]
  dsimp only
  split_ifs
  · exact ht.reduce hlt
  · refine ⟨ht.active, ht.ticket, ?_⟩
    have := ht.volume
    simp only [Live.close]
    omega

theorem Follower.Tracks.accepted (h : s.Tracks a) {ω : ℕ}
    (hω : ∀ m ∈ s.service.mappings.rows, m.slaveOrderId = some ω → m.clientOrderId = c) :
    Follower.Tracks a { s with service := s.service.handleSlaveOrderAccepted a (some c) ω } := by
  have hfind : ∀ c', (s.service.handleReport .live a (.accepted (some c) ω)).1.mappings.find c' =
      (s.service.mappings.find c').map (bookRow a (.accepted (some c) ω)) :=
    fun c' => find_handleReport _
  refine h.rewrite hfind (Rewrites.bookRow _) ?_ ?_
  · -- only the row of `c` gets the id, and no other row has it
    have hset : ∀ c' m, s.service.mappings.find c' = some m →
        (bookRow a (.accepted (some c) ω) m).slaveOrderId = some ω → c' = c := by
      intro c' m hm hb
      have hmc : m.clientOrderId = c' := (find_eq_some hm).2
      unfold bookRow at hb
      split_ifs at hb with hh
      · match c with
        | .co o b =>
          simp only [Report.hits, Mapping.isCopy, Bool.and_eq_true, decide_eq_true_eq] at hh
          rw [← hmc, hh.1]
        | .cm _ _ => simp [Report.hits] at hh
        | .other _ => simp [Report.hits] at hh
      · rw [← hmc]
        exact hω m (find_eq_some hm).1 hb
    have hkeep : ∀ m ω', ω' ≠ ω → (bookRow a (.accepted (some c) ω) m).slaveOrderId = some ω' →
        m.slaveOrderId = some ω' := by
      intro m ω' hne hb
      unfold bookRow at hb
      split_ifs at hb
      · exact absurd (some.inj hb).symm hne
      · exact hb
    intro c₁ c₂ m₁ m₂ ω' hm₁ hm₂ h₁ h₂
    by_cases he : ω' = ω
    · subst he
      exact (hset c₁ m₁ hm₁ h₁).trans (hset c₂ m₂ hm₂ h₂).symm
    · exact h.orders c₁ c₂ m₁ m₂ ω' hm₁ hm₂ (hkeep m₁ ω' he h₁) (hkeep m₂ ω' he h₂)
  · intro c' hc'
    obtain ⟨m, hm, ht⟩ := h.row c' hc'
    refine ⟨m, hm, ?_⟩
    unfold bookRow
    split_ifs
    · exact ⟨rfl, ht.ticket, ht.volume⟩
    · exact ht

/-- A statement that takes rows out of use takes none of a live copy. -/
theorem Follower.Tracks.retire (h : s.Tracks a) {status : MappingStatus}
    (hfind : ∀ c, st.mappings.find c =
      (s.service.mappings.find c).map fun m => if P m then { m with status := status } else m)
    (hP : ∀ c m, s.service.mappings.find c = some m → m.status = .active → P m →
      (s.live c).volume = 0) : Follower.Tracks a ⟨st, s.live⟩ := by
  have hg : Rewrites fun m : Mapping => { m with status := status } :=
    ⟨fun _ => rfl, fun _ => rfl, fun _ => rfl⟩
  refine h.rewrite hfind hg.ite ?_ fun c hc => ?_
  · intro c c' m m' ω hm hm' hω hω'
    have hsame : ∀ m : Mapping, (if P m then { m with status := status } else m).slaveOrderId =
        m.slaveOrderId := by
      intro m
      split_ifs <;> rfl
    rw [hsame] at hω hω'
    exact h.orders c c' m m' ω hm hm' hω hω'
  · obtain ⟨m, hm, ht⟩ := h.row c hc
    refine ⟨m, hm, ?_⟩
    have hn : ¬ P m := by
      intro hh
      have := hP c m hm ht.active hh
      omega
    rw [if_neg hn]
    exact ht

theorem Follower.Tracks.failed (h : s.Tracks a) {x : Option ClientOrderId}
    (hx : ∀ c ∈ x, (s.live c).volume = 0) :
    Follower.Tracks a { s with service := s.service.handleSlaveRejection a x } := by
  cases x with
  | none => exact h
  | some c₀ =>
    refine h.retire (P := Mapping.isCopy a c₀) (fun c => find_updateFound _) ?_
    rintro c m hm - hh
    simp only [Mapping.isCopy, Bool.and_eq_true, decide_eq_true_eq] at hh
    have hmc : m.clientOrderId = c := (find_eq_some hm).2
    rw [← hmc, hh.1]
    exact hx c₀ rfl

end Keep

section Runs

variable {a : ℕ} {s s' : Follower} {e : CopyEvent}

theorem Follower.Tracks.init (a : ℕ) : Follower.init.Tracks a where
  idents c m hm := absurd hm (by simp [Follower.init, empty, find])
  account c m hm := absurd hm (by simp [Follower.init, empty, find])
  orders c c' m m' ω hm := absurd hm (by simp [Follower.init, empty, find])
  row c hc := absurd hc (by simp [Follower.init, Live.none])

theorem Follower.Tracks.step (h : s.Tracks a) (hok : e.Clean a s) (hf : s.fire a e = some s') :
    s'.Tracks a := by
  cases e with
  | request i =>
    simp only [fire] at hf
    split_ifs at hf with hi
    cases hf
    exact h.request hi
  | filled c fill =>
    simp only [fire] at hf
    split_ifs at hf with hc
    cases hf
    obtain ⟨hk, -, hrow, hname⟩ := hc
    refine h.filled fun c' hc' => ?_
    by_cases he : c' = c
    · subst he
      obtain ⟨m, hm⟩ := isSome_iff_exists.1 hrow
      refine ⟨m, hm, ?_⟩
      rw [Function.update_self]
      exact tracked_fill h hm hk hname hok
    · rw [Function.update_of_ne he] at hc' ⊢
      obtain ⟨m, hm, ht⟩ := h.row c' hc'
      exact ⟨m, hm, by rwa [bookRow_fill_other h hm he hk hname hok]⟩
  | closed c fill =>
    simp only [fire] at hf
    cases hk : fill.closedVolume with
    | none => simp [hk] at hf
    | some k =>
      simp only [hk] at hf
      split_ifs at hf with hc
      cases hf
      refine h.filled fun c' hc' => ?_
      by_cases he : c' = c
      · subst he
        rw [Function.update_self] at hc' ⊢
        refine tracked_close h hk ?_
        simp only [Live.close] at hc'
        omega
      · rw [Function.update_of_ne he] at hc' ⊢
        obtain ⟨m, hm, ht⟩ := h.row c' hc'
        obtain ⟨hmem, hmc⟩ := find_eq_some hm
        rw [key_mapping] at hmc
        refine ⟨m, hm, ?_⟩
        have hmiss : bookRow a (.filled fill) m = m := by
          rw [bookRow_close hk]
          refine if_neg fun hh => ?_
          rcases hok m hmem hh with heq | h0
          · exact he (hmc.symm.trans heq)
          · rw [hmc] at h0
            omega
        rwa [hmiss]
  | accepted c ω =>
    simp only [fire] at hf
    split_ifs at hf with hc
    cases hf
    exact h.accepted hc
  | cancelled ω =>
    cases hf
    refine h.retire (P := Mapping.isOrder a (some ω)) (fun c => find_updateFound _) ?_
    rintro c m hm - hh
    obtain ⟨hmem, hmc⟩ := find_eq_some hm
    rw [key_mapping] at hmc
    rw [← hmc]
    exact hok m hmem hh
  | rejected x | gaveUp x =>
    cases hf
    exact h.failed hok
  | expired c₀ =>
    cases hf
    refine h.retire (P := fun m => m.isCopy a c₀ && m.status = .pending)
      (fun c => find_updateWhere (f := fun m => { m with status := .failed }) fun _ => rfl) ?_
    intro c m hm hact hh
    simp only [Bool.and_eq_true, decide_eq_true_eq] at hh
    rw [hact] at hh
    exact absurd hh.2 (by simp)

/-- An open and a fill of it, for a master position 5 copied to account 1. -/
def sampleRequest (v : ℕ) : CopyEvent :=
  .request (.openMarket ⟨1, 5, 7, .buy, v, .unset, "copy:m5", "EURUSD", none⟩)

def sampleFilled (v : ℕ) : CopyEvent := .filled (.cm 5 1) ⟨some (.cm 5 1), 20, v, none, none, .unset⟩

/-- The copy has volume, and no active row. -/
def Follower.Detached (s : Follower) (c : ClientOrderId) : Prop :=
  0 < (s.live c).volume ∧ ∀ m ∈ s.service.mappings.rows, m.clientOrderId = c → m.status ≠ .active

instance (s : Follower) (c : ClientOrderId) : Decidable (s.Detached c) :=
  inferInstanceAs (Decidable (_ ∧ _))

/-- Some run of account 1 leads to the event, after which the copy is detached. -/
def DetachedBy (e : CopyEvent) (c : ClientOrderId) : Prop :=
  ∃ s t, Machine.Run (Follower.fire 1) (fun _ _ => True) .init s ∧ s.fire 1 e = some t ∧ t.Detached c

theorem detachedBy_of_fireAll {e : CopyEvent} {c : ClientOrderId} (es : List CopyEvent)
    (h : ((Machine.fireAll (Follower.fire 1) (fun _ _ => true) es .init).any fun s =>
      Decidable.decide (((s.fire 1 e).any fun t => Decidable.decide (t.Detached c)) = true)) = true) :
    DetachedBy e c := by
  obtain ⟨s, hrun, hs⟩ : ∃ s, Machine.Run (Follower.fire 1) (fun _ _ => True) .init s ∧
      ((s.fire 1 e).any fun t => Decidable.decide (t.Detached c)) = true :=
    Machine.exists_run es Follower.init h
  obtain ⟨t, ht, hd⟩ := (any_eq_true _ _).1 hs
  exact ⟨s, t, hrun, ht, of_decide_eq_true hd⟩

end Runs

end Copier
