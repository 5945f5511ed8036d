import CopyTrading.Copier.Consistent

/-!
# Copier.Orphan — copies the master has left

A close reaches the copies whose rows are active when the event is handled, a cancel the orders that
are accepted by then.  Where the master's full close finds every fill of the copies booked, and its
cancel every order accepted, a quiescent slave holds no copy of a closed position and no order whose
master order is cancelled; a close that overtakes the fill leaves the copy behind.
-/

namespace Copier

open List Option Function Account

variable {m' : Master} {e : MasterEvent}

/-- The copies of a master position: market copies, and copies born from the order that filled as it. -/
def CopyOf (m : Master) (p : ℕ) : ClientOrderId → Prop
  | .cm p' _ => p' = p
  | .co o _ => (m.orders o).map MasterOrder.status = some (.filled p)
  | .other _ => False

instance (m : Master) (p : ℕ) : DecidablePred (CopyOf m p)
  | .cm _ _ => inferInstanceAs (Decidable (_ = _))
  | .co _ _ => inferInstanceAs (Decidable (_ = _))
  | .other _ => inferInstanceAs (Decidable False)

/-- No request that opens the copy and no report of an open of it is in flight. -/
def Account.NotOpening (x : Account) (c : ClientOrderId) : Prop :=
  (∀ i ∈ x.requests, clientOrderIdFor i ≠ some c) ∧ ∀ r ∈ x.reports, r.names ≠ some c

instance (x : Account) (c : ClientOrderId) : Decidable (x.NotOpening c) :=
  inferInstanceAs (Decidable (_ ∧ _))

/-- A copy born from a pending order that the close of `p` reaches, or that is gone. -/
def Mapping.Reached (p : ℕ) (m : Mapping) : Prop :=
  m.masterOrderId ≠ none → m.status = .closed ∨ (m.masterPositionId = some p ∧ m.held ≠ none)

instance (p : ℕ) (m : Mapping) : Decidable (m.Reached p) := inferInstanceAs (Decidable (_ → _))

/-- The report of the order's acceptance is in flight. -/
def Report.accepts (c : ClientOrderId) : Report → Bool
  | .accepted c' _ => c' = some c
  | _ => false

/-- A full close finds every open of the position's copies booked, and the pending ones filled and
linked; a cancel finds every order of the copies accepted. -/
def Action.Timely : Action → Sys → Prop
  | .master (.positionClosed e), s =>
    e.remainingVolume = 0 → ∀ m ∈ s.service.mappings.rows,
      CopyOf s.master e.positionId m.clientOrderId →
        (s.accounts m.slaveAccountId).NotOpening m.clientOrderId ∧ m.Reached e.positionId
  | .master (.pendingCancelled o), s => ∀ m ∈ s.service.mappings.rows, m.masterOrderId = some o →
      (∀ i ∈ (s.accounts m.slaveAccountId).requests, clientOrderIdFor i ≠ some m.clientOrderId) ∧
        ∀ r ∈ (s.accounts m.slaveAccountId).reports, r.accepts m.clientOrderId = false
  | _, _ => True

instance : ∀ (act : Action) (s : Sys), Decidable (act.Timely s)
  | .master (.positionClosed e), _ => inferInstanceAs (Decidable (e.remainingVolume = 0 → _))
  | .master (.pendingCancelled _), s =>
    inferInstanceAs (Decidable (∀ m ∈ s.service.mappings.rows, _ → _ ∧ _))
  | .master (.positionOpened _), _ => isTrue trivial
  | .master (.positionSLTPAmended _), _ => isTrue trivial
  | .master (.pendingPlaced _), _ => isTrue trivial
  | .master (.pendingReplaced _), _ => isTrue trivial
  | .master (.pendingFilled _ _), _ => isTrue trivial
  | .master (.rejected _), _ => isTrue trivial
  | .execute _ _, _ => isTrue trivial
  | .trigger _ _ _, _ => isTrue trivial
  | .deliver _, _ => isTrue trivial

/-- The slave holds no copy of a closed position and no order of a cancelled one. -/
structure NoOrphan (m : Master) (x : Account) : Prop where
  position : ∀ q ∈ x.positions.rows, 0 < q.volume → ∀ p z, CopyOf m p q.clientOrderId →
    m.positions p = some z → 0 < z.volume
  order : ∀ q ∈ x.orders.rows, q.status = .resting → ∀ o a z, q.clientOrderId = .co o a →
    m.orders o = some z → z.status ≠ .cancelled

/-! ### A copy that is being closed -/

/-- The volume a request closes of position `π`. -/
def SlaveIntent.closes (π : ℕ) : SlaveIntent → ℕ
  | .closePosition i => if i.positionId = π then i.volume else 0
  | _ => 0

/-- The volume the requests close of position `π`. -/
def closeVolume (π : ℕ) (is : List SlaveIntent) : ℕ := (is.map (SlaveIntent.closes π)).sum

@[simp] theorem closeVolume_nil (π : ℕ) : closeVolume π [] = 0 := rfl

@[simp] theorem closeVolume_cons (π : ℕ) (i : SlaveIntent) (is : List SlaveIntent) :
    closeVolume π (i :: is) = i.closes π + closeVolume π is := by
  simp [closeVolume]

@[simp] theorem closeVolume_append (π : ℕ) (is js : List SlaveIntent) :
    closeVolume π (is ++ js) = closeVolume π is + closeVolume π js := by
  simp [closeVolume]

theorem le_closeVolume {π : ℕ} {i : SlaveIntent} {is : List SlaveIntent} (h : i ∈ is) :
    i.closes π ≤ closeVolume π is :=
  single_le_sum (fun _ _ => Nat.zero_le _) _ (mem_map_of_mem h)

/-- No open of the copy is waiting, no order of it rests, and what it holds is about to be closed. -/
structure Closing (x : Account) (c : ClientOrderId) : Prop where
  requests : ∀ i ∈ x.requests, clientOrderIdFor i ≠ some c
  orders : ∀ q ∈ x.orders.rows, q.clientOrderId = c → q.status ≠ .resting
  positions : ∀ q ∈ x.positions.rows, q.clientOrderId = c → q.volume ≤ closeVolume q.id x.requests

/-- The order of the copy is not waiting to be placed, and is about to be cancelled. -/
structure Cancelling (x : Account) (c : ClientOrderId) : Prop where
  requests : ∀ i ∈ x.requests, clientOrderIdFor i ≠ some c
  orders : ∀ q ∈ x.orders.rows, q.clientOrderId = c → q.status = .resting →
    ∃ i, .cancelPending i ∈ x.requests ∧ i.orderId = q.id

section Keep

variable {x x' : Account} {c : ClientOrderId} {i : SlaveIntent} {rest sent : List SlaveIntent}

theorem Closing.receive (h : Closing x c) (s : Mappings)
    (hs : ∀ i ∈ sent, clientOrderIdFor i ≠ some c) : Closing (x.receive s sent) c where
  requests := forall_mem_append.2 ⟨h.requests, hs⟩
  orders := h.orders
  positions q hq hc := by
    have := h.positions q hq hc
    show q.volume ≤ closeVolume q.id (x.requests ++ sent)
    rw [closeVolume_append]
    omega

theorem Cancelling.receive (h : Cancelling x c) (s : Mappings)
    (hs : ∀ i ∈ sent, clientOrderIdFor i ≠ some c) : Cancelling (x.receive s sent) c where
  requests := forall_mem_append.2 ⟨h.requests, hs⟩
  orders q hq hc hr := by
    obtain ⟨j, hj, hid⟩ := h.orders q hq hc hr
    exact ⟨j, mem_append_left _ hj, hid⟩

/-- Executing a request that does not open a copy takes what it closes from the copy's positions, and all it
can. -/
theorem Move.copies (h : Move x (some i) x') (hi : clientOrderIdFor i ≠ some c) :
    (x'.positions.rows.filter fun q => q.clientOrderId = c) =
      (x.positions.rows.filter fun q => q.clientOrderId = c).map fun q => subVolume (i.closes q.id) q := by
  cases h with
  | idle i hig =>
    refine ((map_congr_left fun q hq => ?_).trans (map_id _)).symm
    cases i with
    | closePosition j =>
      simp only [SlaveIntent.closes]
      split_ifs with hid
      · have h0 := hig.closes j rfl q (mem_of_mem_filter hq) hid.symm
        rw [subVolume, show q.volume - j.volume = q.volume by omega]
        rfl
      · rfl
    | _ => rfl
  | grow i q hq hv hc =>
    refine (Table.filter_modify (addVolume i.volume) (fun _ => rfl) fun _ => rfl).trans
      (map_congr_left fun b hb => ?_)
    refine if_neg fun hid => hi ?_
    rw [← of_decide_eq_true (mem_filter.1 hb).2, eq_of_position_id (mem_of_mem_filter hb) hq hid, hc]
    rfl
  | start i π hf hno =>
    have hne : ClientOrderId.cm i.masterPositionId i.slaveAccountId ≠ c := fun he => hi (congrArg some he)
    rw [Table.insert_rows hf, filter_cons_of_neg (by simpa using hne)]
    exact (map_id _).symm
  | close j q hq hid hk =>
    refine (Table.filter_modify (subVolume (min j.volume q.volume)) (fun _ => rfl) fun _ => rfl).trans
      (map_congr_left fun b hb => ?_)
    simp only [SlaveIntent.closes, hid]
    split_ifs with hb' hb'' hb''
    · obtain rfl := eq_of_position_id (mem_of_mem_filter hb) hq hb'
      simp only [subVolume, BrokerPosition.mk.injEq, true_and]
      omega
    · exact absurd hb'.symm hb''
    · exact absurd hb''.symm hb'
    · rfl
  | place i ω hf | resize i q hq hs hid | cancel i q hq hs hid => exact (map_id _).symm

/-- A resting order of the copy was resting before, and the request does not cancel it. -/
theorem Move.resting {b : BrokerOrder} (h : Move x (some i) x') (hi : clientOrderIdFor i ≠ some c)
    (hb : b ∈ x'.orders.rows) (hbc : b.clientOrderId = c) (hs : b.status = .resting) :
    ∃ q ∈ x.orders.rows, q.clientOrderId = c ∧ q.status = .resting ∧ q.id = b.id ∧
      ∀ j, i = .cancelPending j → j.orderId ≠ q.id := by
  cases h with
  | idle i hig => exact ⟨b, hb, hbc, hs, rfl, fun j hj hid => hig.cancels j hj b hb hid.symm hs⟩
  | grow i q hq hv hc | start i π hf hno | close j q hq hid hk => exact ⟨b, hb, hbc, hs, rfl, by simp⟩
  | place j ω hf =>
    rcases (Table.mem_insert hf).1 hb with rfl | hb
    · exact absurd (congrArg some hbc) hi
    · exact ⟨b, hb, hbc, hs, rfl, by simp⟩
  | resize j q hq hs' hid =>
    rcases (mem_modify_order (Account.resize j.volume) (fun _ => rfl) hq).1 hb with rfl | ⟨hb, -⟩
    · exact ⟨q, hq, hbc, hs, rfl, by simp⟩
    · exact ⟨b, hb, hbc, hs, rfl, by simp⟩
  | cancel j q hq hs' hid =>
    rcases (mem_modify_order (mark .cancelled) (fun _ => rfl) hq).1 hb with rfl | ⟨hb, hne⟩
    · simp [mark] at hs
    · refine ⟨b, hb, hbc, hs, rfl, fun j' hj' hid' => hne ?_⟩
      cases hj'
      exact hid'.symm.trans hid

/-- The volume of a copy that is being closed and the closes that wait for it go down together. -/
theorem Closing.execute (h : Closing x c) (hr : x.requests = i :: rest)
    (hm : Move { x with requests := rest } (some i) x') : Closing x' c := by
  obtain ⟨hi, hrest⟩ := forall_mem_cons.1 (hr ▸ h.requests)
  refine ⟨hm.requests ▸ hrest, fun b hb hbc hs => ?_, fun b hb hbc => ?_⟩
  · obtain ⟨q, hq, hqc, hqs, -⟩ := hm.resting hi hb hbc hs
    exact h.orders q hq hqc hqs
  · have hmem : b ∈ x'.positions.rows.filter fun q => q.clientOrderId = c := mem_filter.2 ⟨hb, decide_eq_true hbc⟩
    rw [hm.copies hi] at hmem
    obtain ⟨q, hq, rfl⟩ := mem_map.1 hmem
    have hle := h.positions q (mem_of_mem_filter hq) hbc
    rw [hr, closeVolume_cons] at hle
    rw [hm.requests]
    show q.volume - i.closes q.id ≤ closeVolume q.id rest
    omega

/-- An order that fills is none of a copy that is being closed. -/
theorem Closing.trigger (h : Closing x c) (hm : Move x none x') : Closing x' c := by
  cases hm with
  | trigger q π hq hs hf =>
    have hne : q.clientOrderId ≠ c := fun hc => h.orders q hq hc hs
    refine ⟨h.requests, fun b hb hbc => ?_, fun b hb hbc => ?_⟩
    · rcases (mem_modify_order (mark .filled) (fun _ => rfl) hq).1 hb with rfl | ⟨hb, -⟩
      · exact absurd hbc hne
      · exact h.orders b hb hbc
    · rcases (Table.mem_insert hf).1 hb with rfl | hb
      · exact absurd hbc hne
      · exact h.positions b hb hbc

theorem Cancelling.execute (h : Cancelling x c) (hr : x.requests = i :: rest)
    (hm : Move { x with requests := rest } (some i) x') : Cancelling x' c := by
  obtain ⟨hi, hrest⟩ := forall_mem_cons.1 (hr ▸ h.requests)
  refine ⟨hm.requests ▸ hrest, fun b hb hbc hs => ?_⟩
  obtain ⟨q, hq, hqc, hqs, hid, hne⟩ := hm.resting hi hb hbc hs
  obtain ⟨j, hj, hjid⟩ := h.orders q hq hqc hqs
  rw [hr] at hj
  rcases mem_cons.1 hj with he | hj
  · exact absurd hjid (hne j he.symm)
  · exact ⟨j, hm.requests ▸ hj, hjid.trans hid⟩

theorem Cancelling.trigger (h : Cancelling x c) (hm : Move x none x') : Cancelling x' c := by
  cases hm with
  | trigger q π hq hs hf =>
    refine ⟨h.requests, fun b hb hbc hbs => ?_⟩
    rcases (mem_modify_order (mark .filled) (fun _ => rfl) hq).1 hb with rfl | ⟨hb, -⟩
    · simp [mark] at hbs
    · exact h.orders b hb hbc hbs

end Keep

/-! ### The master's close and cancel -/

section Start

variable {fleet : Fleet} {s : Sys} {a : ℕ} {c : ClientOrderId} {e : MasterPositionClosed}
  {m : Mapping} {x : Account}

/-- A copy without a row has no trace anywhere. -/
theorem Consistent.closing_of_none (h : Consistent fleet s) (hc : s.service.mappings.find c = none) :
    Closing (s.accounts a) c := by
  have htrace := (h.booked a).noTrace hc
  refine ⟨fun i hi hic => ?_, fun q hq hqc => absurd hqc (htrace.2 q hq), fun q hq hqc =>
    absurd hqc (htrace.1 q hq)⟩
  have := (h.booked a).named i hi c hic
  rw [hc] at this
  simp at this

/-- What the decision core asks for, the account gets. -/
theorem mem_after {e : MasterEvent} {i : SlaveIntent}
    (h : i ∈ decide e s.service.mappingState fleet.slaves) (hs : i.sends) (ha : i.slaveAccountId = a) :
    i ∈ share a (s.reply fleet e).2 :=
  mem_share.2 ⟨mem_dispatch s.service.mappings h hs, ha⟩

/-- Only an open or a placed order makes the account open a copy. -/
theorem not_opens_after {e : MasterEvent} (hopen : ∀ e' b, e = .positionOpened e' →
    c ≠ .cm e'.positionId b) (hplace : ∀ e' b, e = .pendingPlaced e' → c ≠ .co e'.orderId b) :
    ∀ i ∈ share a (s.reply fleet e).2, clientOrderIdFor i ≠ some c := by
  intro i hi hic
  have hsub := (dispatched _ _).sent_sub (mem_share.1 hi).1
  obtain ⟨sl, -, ⟨e', he', -, hc⟩ | ⟨e', he', -, hc⟩⟩ := decide_opens hsub hic
  · exact hopen e' _ he' hc
  · exact hplace e' _ he' hc

/-- A full close asks for everything the row of a copy says it holds. -/
theorem Consistent.close_sent (h : Consistent fleet s)
    (he : e.remainingVolume = 0) {w : Held} (hca : c.account = some a)
    (hm : s.service.mappings.find c = some m) (hlink : m.masterPositionId = some e.positionId)
    (hact : m.status = .active) (hw : m.held = some w) (hv : w.slaveVolume ≠ 0) :
    SlaveIntent.closePosition ⟨a, w.slavePositionId, w.slaveVolume, some e.positionId⟩ ∈
      share a (s.reply fleet (.positionClosed e)).2 := by
  obtain ⟨sl, rfl, hby⟩ := h.slave hca hm
  have hentry := mem_positionEntries.2
    ⟨m, (Table.find_eq_some hm).1, hlink, hact, w, hw, rfl⟩
  have hclose : closeFor e sl ⟨m.slaveAccountId, w.slavePositionId, w.slaveVolume⟩ =
      .closePosition ⟨sl.accountId, w.slavePositionId, w.slaveVolume, some e.positionId⟩ := by
    simp only [closeFor, he, partialCloseVolume_full, if_neg hv]
  refine mem_after ?_ rfl rfl
  rw [← hclose]
  exact mem_append_left _ (forEntries_mem hentry hby)

/-- While no open of a copy is in flight, its row is on the position the broker holds, and says at
least its volume. -/
theorem Consistent.row_of_volume (h : Consistent fleet s) (hca : c.account = some a)
    (hm : s.service.mappings.find c = some m) (hn : ∀ r ∈ (s.accounts a).reports, r.names ≠ some c)
    {q : BrokerPosition} (hq : q ∈ (s.accounts a).positions.rows) (hqc : q.clientOrderId = c)
    (hv : 0 < q.volume) : m.status = .active ∧ ∃ v, m.held = some ⟨q.id, v⟩ ∧ q.volume ≤ v := by
  have hlow := h.lowered hca hm hn
  obtain ⟨-, hheld, hact⟩ := ((h.booked a).row c m hca hm).of_volume hq hqc hv
  refine ⟨hlow.active hact, ?_⟩
  have hpos := hlow.position
  have hvol := hlow.volume
  simp only [Mapping.slavePositionId, Mapping.volume, hheld, map_some, getD_some]
    at hpos hvol
  obtain ⟨w, hw, hid⟩ := map_eq_some_iff.1 hpos.symm
  rw [hw, map_some, getD_some] at hvol
  exact ⟨w.slaveVolume, by rw [hw, ← hid], hvol⟩

/-- The master closes a position in full: every copy is told. -/
theorem Consistent.closing_of_close (h : Consistent fleet s) (he : e.remainingVolume = 0)
    (ht : Action.Timely (.master (.positionClosed e)) s) (hca : c.account = some a)
    (hc : CopyOf s.master e.positionId c) : Closing (s.after fleet (.positionClosed e) a) c := by
  have hnone : ∀ i ∈ share a (s.reply fleet (.positionClosed e)).2,
      clientOrderIdFor i ≠ some c := not_opens_after (by simp) (by simp)
  cases hm : s.service.mappings.find c with
  | none => exact (h.closing_of_none hm).receive _ hnone
  | some m =>
    obtain ⟨hmem, hmc⟩ := Table.find_eq_some hm
    rw [key_mapping] at hmc
    have hident := h.idents c m hm
    obtain ⟨⟨hreq, hrep⟩, hreach⟩ := ht he m hmem (by rw [hmc]; exact hc)
    rw [h.idents.slaveAccountId hm hca, hmc] at hreq hrep
    refine ⟨forall_mem_append.2 ⟨hreq, hnone⟩, fun q hq hqc hs => ?_, fun q hq hqc => ?_⟩
    · -- an order that rests is neither filled nor gone
      have hlow := h.lowered hca hm hrep
      obtain ⟨-, hact, -, hheld⟩ := ((h.booked a).row c m hca hm).of_resting hq hqc hs
      obtain ⟨⟨o, ho⟩, -⟩ := (h.booked a).orders q hq
      have hord : m.masterOrderId ≠ none := by
        rw [← hqc, ho] at hident
        rw [hident.2]
        simp
      rcases hreach hord with hcl | ⟨-, hne⟩
      · exact absurd (hlow.active hact) (by rw [hcl]; simp)
      · have := hlow.position
        simp only [Mapping.slavePositionId, hheld, map_none] at this
        exact hne (map_eq_none_iff.1 this.symm)
    · rcases Nat.eq_zero_or_pos q.volume with hv | hv
      · rw [hv]
        exact Nat.zero_le _
      obtain ⟨hact, v, hw, hle⟩ := h.row_of_volume hca hm hrep hq hqc hv
      have hlink : m.masterPositionId = some e.positionId := by
        cases c with
        | cm p b =>
          obtain rfl : p = e.positionId := hc
          exact hident.2.1
        | co o b =>
          rcases hreach (by rw [hident.2]; simp) with hcl | ⟨hl, -⟩
          · rw [hact] at hcl
            simp at hcl
          · exact hl
        | other y => exact hident.elim
      have hsent := h.close_sent he hca hm hlink hact hw (by simp only; omega)
      have hclose := le_closeVolume (π := q.id) hsent
      simp only [SlaveIntent.closes, if_true] at hclose
      show q.volume ≤ closeVolume q.id ((s.accounts a).requests ++ share a _)
      rw [closeVolume_append]
      omega

/-- A report that does not accept the order leaves its id, and activates nothing. -/
theorem bookRow_order {c₀ : ClientOrderId} {r : Report}
    (h : Owned x c m) (hm : m.clientOrderId = c) (hmk : c.isMarketCopy = false) (hr : About x c₀ r)
    (hn : r.accepts c = false) : (bookRow a r m).slaveOrderId = m.slaveOrderId ∧
      ((bookRow a r m).status = .active → m.status = .active) := by
  unfold bookRow
  split_ifs with hh
  swap
  · exact ⟨rfl, id⟩
  obtain rfl := h.eq_of_hits hm hr hh
  cases hr with
  | market π v hmk' hq =>
    rw [hmk] at hmk'
    simp at hmk'
  | pending π v ω hmk' hq ho =>
    simp only [openFill, Report.hits, pinned_pending π v (some ω) hmk, Mapping.isOrder,
      Bool.and_eq_true, decide_eq_true_eq] at hh
    refine ⟨?_, fun _ => hh.2⟩
    simp [openFill, Report.sets, pinned_pending π v (some ω) hmk]
  | close k π hq =>
    simp only [closeFill, Report.hits, Mapping.isReduced, Bool.and_eq_true,
      decide_eq_true_eq] at hh
    exact ⟨rfl, fun _ => hh.1.2⟩
  | accepted ω ho => simp [Report.accepts] at hn
  | cancelled ω ho => exact ⟨rfl, fun hs => absurd hs (by simp [Report.sets])⟩

theorem settle_order {rs : List Report} (h : Owned x c m)
    (hm : m.clientOrderId = c) (hmk : c.isMarketCopy = false) (hr : ∀ r ∈ rs, ∃ c₀, About x c₀ r)
    (hn : ∀ r ∈ rs, r.accepts c = false) : (settle a rs m).slaveOrderId = m.slaveOrderId ∧
      ((settle a rs m).status = .active → m.status = .active) := by
  induction rs generalizing m with
  | nil => exact ⟨rfl, id⟩
  | cons r rs ih =>
    obtain ⟨c₀, hc₀⟩ := hr r mem_cons_self
    obtain ⟨ho, ha⟩ := bookRow_order (a := a) h hm hmk hc₀ (hn r mem_cons_self)
    obtain ⟨ho', ha'⟩ := ih (h.bookRow (a := a) hm hc₀) (by rw [bookRow_clientOrderId]; exact hm)
      (fun r' hr' => hr r' (mem_cons_of_mem r hr'))
      fun r' hr' => hn r' (mem_cons_of_mem r hr')
    exact ⟨ho'.trans ho, fun hs => ha (ha' hs)⟩

theorem Closing.cancelling (h : Closing x c) : Cancelling x c :=
  ⟨h.requests, fun q hq hc hs => absurd hs (h.orders q hq hc)⟩

/-- The master cancels an order: every order of its copies is told. -/
theorem Consistent.cancelling_of_cancel (h : Consistent fleet s) {o : ℕ}
    (ht : Action.Timely (.master (.pendingCancelled o)) s) :
    Cancelling (s.after fleet (.pendingCancelled o) a) (.co o a) := by
  have hnone : ∀ i ∈ share a (s.reply fleet (.pendingCancelled o)).2,
      clientOrderIdFor i ≠ some (.co o a) := not_opens_after (by simp) (by simp)
  have hca : (ClientOrderId.co o a).account = some a := rfl
  cases hm : s.service.mappings.find (.co o a) with
  | none => exact (h.closing_of_none hm).cancelling.receive _ hnone
  | some m =>
    obtain ⟨hmem, hmc⟩ := Table.find_eq_some hm
    rw [key_mapping] at hmc
    have hident := h.idents _ m hm
    obtain ⟨hreq, hrep⟩ := ht m hmem hident.2
    rw [h.idents.slaveAccountId hm hca, hmc] at hreq hrep
    refine ⟨forall_mem_append.2 ⟨hreq, hnone⟩, fun q hq hqc hs => ?_⟩
    obtain ⟨-, hact, hω, -⟩ := ((h.booked a).row _ m hca hm).of_resting hq hqc hs
    obtain ⟨ho, ha⟩ := settle_order ((h.booked a).owned _ m hca hm) hmc rfl
      (fun r hr => ⟨_, ((h.booked a).reports r hr).choose_spec.1⟩) hrep
    have hentry := mem_orderEntries.2 ⟨m, hmem, hident.2, ha hact, q.id, ho.symm.trans hω, rfl⟩
    obtain ⟨sl, -, hby⟩ := h.slave hca hm
    have hdec : SlaveIntent.cancelPending ⟨m.slaveAccountId, q.id⟩ ∈
        decide (.pendingCancelled o) s.service.mappingState fleet.slaves :=
      mem_append_left _ (forEntries_mem hentry hby)
    exact ⟨_, mem_append_right _ (mem_after hdec rfl hident.1), rfl⟩

end Start

/-! ### Runs -/

/-- A position is closed by its close alone, and its copies are what they were. -/
theorem Master.Next.closed_cases {m : Master} (h : m.Next e m') {p : ℕ}
    {z : MasterPosition} {c : ClientOrderId} (hz : m'.positions p = some z) (h0 : z.volume = 0)
    (hc : CopyOf m' p c) : CopyOf m p c ∧
      ((∃ e', e = .positionClosed e' ∧ e'.positionId = p ∧ e'.remainingVolume = 0) ∨
        m.positions p = some z) := by
  -- an order that is not filled as `p` can be rewritten freely
  have hcopy : ∀ {o x}, m'.orders = update m.orders o (some x) → x.status ≠ .filled p →
      CopyOf m p c := by
    intro o x ho hx
    cases c with
    | cm p' a | other y => exact hc
    | co o' a =>
      simp only [CopyOf, ho, update_apply] at hc ⊢
      split_ifs at hc with he
      · exact absurd (some.inj hc) hx
      · exact hc
  -- a position written with volume is not `p`
  have hpos : ∀ {p' x}, m'.positions = update m.positions p' (some x) → x.volume ≠ 0 →
      m.positions p = some z := by
    intro p' x hp hx
    rw [hp, update_apply] at hz
    split_ifs at hz with he
    · cases hz
      exact absurd h0 hx
    · exact hz
  cases h with
  | opened e hn hv | increased e x hx hp hv hs | amended e x hx hp =>
    exact ⟨hc, .inr (hpos rfl (by simp only; omega))⟩
  | closed e x hx hv hsum hs =>
    refine ⟨hc, ?_⟩
    by_cases he : e.positionId = p ∧ e.remainingVolume = 0
    · exact .inl ⟨e, rfl, he.1, he.2⟩
    · refine .inr ?_
      simp only [Master.setPosition, update_apply] at hz
      split_ifs at hz with hep
      · cases hz
        exact absurd ⟨hep.symm, h0⟩ he
      · exact hz
  | placed e hn hv | cancelled o x hx hr => exact ⟨hcopy rfl (by simp), .inr hz⟩
  | replaced e x hx hr hv hs => exact ⟨hcopy rfl (by simp [hr]), .inr hz⟩
  | filled o p' x hx hr hv hn =>
    have hne : p ≠ p' := by
      rintro rfl
      simp only [Master.setPosition, update_self, some.injEq] at hz
      subst hz
      simp only at h0
      omega
    exact ⟨hcopy rfl (by simp only [ne_eq, MasterOrderStatus.filled.injEq]; exact fun he => hne he.symm),
      .inr (hpos rfl (by simp only; omega))⟩
  | rejected reason => exact ⟨hc, .inr hz⟩

theorem Master.Next.cancelled_cases {m : Master} (h : m.Next e m') {o : ℕ}
    {z : MasterOrder} (hz : m'.orders o = some z) (hs : z.status = .cancelled) :
    e = .pendingCancelled o ∨ m.orders o = some z := by
  have hother : ∀ {o' x}, m'.orders = update m.orders o' (some x) → x.status ≠ .cancelled →
      m.orders o = some z := by
    intro o' x ho hx
    rw [ho, update_apply] at hz
    split_ifs at hz with he
    · cases hz
      exact absurd hs hx
    · exact hz
  cases h with
  | opened e hn hv | increased e x hx hp hv hs | closed e x hx hv hsum hs | amended e x hx hp
  | rejected reason => exact .inr hz
  | placed e hn hv | filled o' p x hx hr hv hn => exact .inr (hother rfl (by simp))
  | replaced e x hx hr hv hs => exact .inr (hother rfl (by simp [hr]))
  | cancelled o' x hx hr =>
    simp only [Master.setOrder, update_apply] at hz
    split_ifs at hz with he
    · rw [he]
      exact .inl rfl
    · exact .inr hz

/-- Copies of closed positions are being closed, orders of cancelled ones cancelled. -/
structure Leaving (s : Sys) : Prop where
  closed : ∀ p z, s.master.positions p = some z → z.volume = 0 → ∀ c a, c.account = some a →
    CopyOf s.master p c → Closing (s.accounts a) c
  cancelled : ∀ o z, s.master.orders o = some z → z.status = .cancelled → ∀ a,
    Cancelling (s.accounts a) (.co o a)

section Runs

variable {fleet : Fleet} {s s' : Sys} {act : Action} {m m' : Master} {e : MasterEvent}

theorem Leaving.init : Leaving Sys.init where
  closed p z hz := absurd hz (by simp [Sys.init, Master.empty])
  cancelled o z hz := absurd hz (by simp [Sys.init, Master.empty])

theorem Leaving.setAccount {a : ℕ} {x : Account} (h : Leaving s)
    (hcl : ∀ c, Closing (s.accounts a) c → Closing x c)
    (hca : ∀ c, Cancelling (s.accounts a) c → Cancelling x c) : Leaving (s.setAccount a x) where
  closed p z hz h0 c b hb hc := by
    have := h.closed p z hz h0 c b hb hc
    by_cases he : b = a
    · subst he
      simpa [Sys.setAccount] using hcl c this
    · simpa [Sys.setAccount, he] using this
  cancelled o z hz hs b := by
    have := h.cancelled o z hz hs b
    by_cases he : b = a
    · subst he
      simpa [Sys.setAccount] using hca _ this
    · simpa [Sys.setAccount, he] using this

/-- A closed position and an order that was filled or cancelled are not opened again. -/
theorem Master.Next.not_reopened (h : m.Next e m') {p : ℕ}
    {z : MasterPosition} (hz : m.positions p = some z) (h0 : z.volume = 0) :
    ∀ e', e = .positionOpened e' → e'.positionId ≠ p := by
  rintro e' rfl rfl
  cases h with
  | opened e hn hv =>
    rw [hn] at hz
    simp at hz
  | increased e x hx hp hv hs =>
    cases hx.symm.trans hz
    omega

theorem Master.Next.not_replaced (h : m.Next e m') {o : ℕ}
    {z : MasterOrder} (hz : m.orders o = some z) : ∀ e', e = .pendingPlaced e' → e'.orderId ≠ o := by
  rintro e' rfl rfl
  cases h with
  | placed e hn hv =>
    rw [hn] at hz
    simp at hz

theorem Leaving.master (h : Leaving s) (hc : Consistent fleet s)
    (hn : s.master.Next e m) (ht : Action.Timely (.master e) s) :
    Leaving ({ s with master := m }.answer (s.reply fleet e)) where
  closed p z hz h0 c a hca hcopy := by
    obtain ⟨hold, ⟨e', rfl, rfl, he'⟩ | hwas⟩ := hn.closed_cases hz h0 hcopy
    · exact hc.closing_of_close he' ht hca hold
    · refine (h.closed p z hwas h0 c a hca hold).receive _ (not_opens_after ?_ ?_)
      · rintro e' b rfl rfl
        exact hn.not_reopened hwas h0 e' rfl hold
      · rintro e' b rfl rfl
        obtain ⟨x, hx, -⟩ := map_eq_some_iff.1 hold
        exact hn.not_replaced hx e' rfl rfl
  cancelled o z hz hs a := by
    rcases hn.cancelled_cases hz hs with rfl | hwas
    · exact hc.cancelling_of_cancel ht
    · refine (h.cancelled o z hwas hs a).receive _ (not_opens_after (by simp) ?_)
      rintro e' b rfl hco
      exact hn.not_replaced hwas e' rfl (ClientOrderId.co.inj hco).1.symm

theorem Leaving.step (h : Leaving s) (hc : Consistent fleet s) (ht : act.Timely s)
    (hf : Fired fleet s act s') : Leaving s' := by
  cases hf with
  | master e m hn => exact h.master hc hn ht
  | execute a fresh i rest x hr hm =>
    exact h.setAccount (fun c hcl => hcl.execute hr hm) fun c hca => hca.execute hr hm
  | trigger a ω fresh x hm =>
    exact h.setAccount (fun c hcl => hcl.trigger hm) fun c hca => hca.trigger hm
  | deliver a r rest hr =>
    have hset : Leaving (s.setAccount a { s.accounts a with reports := rest }) :=
      h.setAccount (fun c hcl => ⟨hcl.requests, hcl.orders, hcl.positions⟩)
        fun c hca => ⟨hca.requests, hca.orders⟩
    exact ⟨fun p z hz h0 c b hb hcopy => (hset.closed p z hz h0 c b hb hcopy).receive _ (handleReport_opens c),
      fun o z hz hs b => (hset.cancelled o z hz hs b).receive _ (handleReport_opens _)⟩

theorem leaving_of_run (h : Runs fleet Action.Timely Sys.init s) : Leaving s :=
  Consistent.init.invariant h Leaving.init fun _ _ _ hok hc hf hl => hl.step hc hok hf

/-- **No orphan at quiescence**: in every run whose full closes find the opens of their copies booked
and whose cancels find the orders accepted, a quiescent state leaves no slave with a copy of a closed
position or an order of a cancelled one. -/
theorem no_orphan_at_quiescence (h : Runs fleet Action.Timely Sys.init s) (hq : s.Quiescent fleet) :
    ∀ sl ∈ fleet.slaves, NoOrphan s.master (s.accounts sl.accountId) := by
  intro sl hsl
  have hl := leaving_of_run h
  have hc : Consistent fleet s := consistent_of_run h
  have hreq : (s.accounts sl.accountId).requests = [] := (hq sl hsl).1
  constructor
  · intro q hqm hv p z hcopy hz
    by_contra hneg
    have hcl := hl.closed p z hz (by omega) _ _ ((hc.booked _).positions q hqm).1 hcopy
    have hle := hcl.positions q hqm rfl
    rw [hreq, closeVolume_nil] at hle
    omega
  · intro q hqm hs o a z hco hz hcanc
    obtain ⟨⟨o', ho'⟩, -⟩ := (hc.booked _).orders q hqm
    cases hco.symm.trans ho'
    obtain ⟨i, hi, -⟩ := (hl.cancelled o z hz hcanc _).orders q hqm hco hs
    rw [hreq] at hi
    simp at hi

theorem no_orphan_at_quiescence_sample : ∃ s, Runs sampleFleet Action.Timely Sys.init s ∧
    s.Quiescent sampleFleet ∧ (s.master.positions 5).map MasterPosition.volume = some 0 ∧
      (s.accounts 1).positions.rows ≠ [] ∧
      ∀ sl ∈ sampleFleet.slaves, NoOrphan s.master (s.accounts sl.accountId) := by
  obtain ⟨s, hrun, hq, h5, hne⟩ : ∃ s, Runs sampleFleet Action.Timely Sys.init s ∧
      s.Quiescent sampleFleet ∧ (s.master.positions 5).map MasterPosition.volume = some 0 ∧
      (s.accounts 1).positions.rows ≠ [] :=
        Machine.exists_run [sampleOpen 5 100 .unset, .execute 1 20, .deliver 1, sampleClose 5 100 0, .execute 1 21,
      .deliver 1] Sys.init (by decide +kernel)
  exact ⟨s, hrun, hq, h5, hne, no_orphan_at_quiescence hrun hq⟩

/-- A close that overtakes the copy's fill, and a cancel that overtakes the order's acceptance, leave
the copy behind for good. -/
theorem orphans_left_behind :
    (∃ s, Runs sampleFleet (fun _ _ => True) Sys.init s ∧ s.Quiescent sampleFleet ∧
      ∃ q ∈ (s.accounts 1).positions.rows, 0 < q.volume ∧ CopyOf s.master 5 q.clientOrderId ∧
        (s.master.positions 5).map MasterPosition.volume = some 0) ∧
    ∃ s, Runs sampleFleet (fun _ _ => True) Sys.init s ∧ s.Quiescent sampleFleet ∧
      ∃ q ∈ (s.accounts 1).orders.rows, q.status = .resting ∧ q.clientOrderId = .co 8 1 ∧
        (s.master.orders 8).map MasterOrder.status = some .cancelled := by
  constructor
  · exact Machine.exists_run [sampleOpen 5 100 .unset, sampleClose 5 100 0, .execute 1 20, .deliver 1] Sys.init
      (by decide +kernel)
  · exact Machine.exists_run [samplePlace 8 100 .unset, .master (.pendingCancelled 8), .execute 1 30,
      .deliver 1] Sys.init
      (by decide +kernel)

end Runs

end Copier
