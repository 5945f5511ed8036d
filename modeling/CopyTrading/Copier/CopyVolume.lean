import CopyTrading.Copier.Orphan

/-!
# Copier.CopyVolume — how much of a copy the broker holds

`copyVolume` is what the broker holds of a copy now, `dueVolume` what it will hold once the closes in
flight are executed.  While only opens of the copy are in flight the one plus their volumes stays
fixed, while only closes are the other does; both are what the copy's row says once nothing is in
flight.
-/

namespace Copier

open List SlaveIntent Account

variable {is : List SlaveIntent}

/-- What the broker holds of the copy. -/
def Account.copyVolume (x : Account) (c : ClientOrderId) : ℕ :=
  x.positions.sum fun q => if q.clientOrderId = c then q.volume else 0

/-- What it holds once the closes in flight are executed. -/
def Account.dueVolume (x : Account) (c : ClientOrderId) : ℕ :=
  x.positions.sum fun q => if q.clientOrderId = c then q.volume - closeVolume q.id x.requests else 0

/-- The volume of the copy a request opens. -/
def SlaveIntent.opens (c : ClientOrderId) : SlaveIntent → ℕ
  | .openMarket i => if .cm i.masterPositionId i.slaveAccountId = c then i.volume else 0
  | _ => 0

/-- The volume requests open for a copy. -/
def openVolume (c : ClientOrderId) (is : List SlaveIntent) : ℕ := (is.map (SlaveIntent.opens c)).sum

@[simp] theorem openVolume_nil (c : ClientOrderId) : openVolume c [] = 0 := rfl

@[simp] theorem openVolume_cons (c : ClientOrderId) (i : SlaveIntent) (is : List SlaveIntent) :
    openVolume c (i :: is) = i.opens c + openVolume c is := by
  simp [openVolume]

@[simp] theorem openVolume_append (c : ClientOrderId) (is js : List SlaveIntent) :
    openVolume c (is ++ js) = openVolume c is + openVolume c js := by
  simp [openVolume]

/-- Requests that are only amends of positions. -/
def Amends (is : List SlaveIntent) : Prop := ∀ i ∈ is, ∃ j, i = .amendPositionSLTP j

theorem openVolume_amends (h : Amends is) (c : ClientOrderId) : openVolume c is = 0 := by
  induction is with
  | nil => rfl
  | cons i is ih =>
    obtain ⟨j, rfl⟩ := h i mem_cons_self
    rw [openVolume_cons, ih fun k hk => h k (mem_cons_of_mem _ hk)]
    rfl

theorem closeVolume_amends (h : Amends is) (π : ℕ) : closeVolume π is = 0 := by
  induction is with
  | nil => rfl
  | cons i is ih =>
    obtain ⟨j, rfl⟩ := h i mem_cons_self
    rw [closeVolume_cons, ih fun k hk => h k (mem_cons_of_mem _ hk)]
    rfl

/-! ### The copy's row -/

section Row

variable {x : Account} {c : ClientOrderId} {m : Mapping} {q : BrokerPosition}

theorem Account.Holds.copyVolume (h : x.Holds c q) : x.copyVolume c = q.volume := by
  rw [Account.copyVolume, Table.sum_eq_single h.mem]
  · exact if_pos h.copy
  · intro q' hq' hne
    split_ifs with hc
    · exact h.others q' hq' hc hne
    · rfl

theorem copyVolume_of_free (h : ∀ q ∈ x.positions.rows, q.clientOrderId ≠ c) : x.copyVolume c = 0 := by
  refine (Table.sum_congr fun q hq => if_neg (h q hq)).trans ?_
  simp [Table.sum]

theorem volume_of_copyVolume (h : x.copyVolume c = 0) (hq : q ∈ x.positions.rows)
    (hc : q.clientOrderId = c) : q.volume = 0 := by
  have hle : (if q.clientOrderId = c then q.volume else 0) ≤ x.copyVolume c :=
    single_le_sum (fun _ _ => Nat.zero_le _) _ (mem_map_of_mem hq)
  rw [if_pos hc] at hle
  omega

/-- A settled row says what the broker holds. -/
theorem Stage.copyVolume (h : Stage x c m) : x.copyVolume c = m.volume := by
  cases h with
  | waiting hm hx => rw [copyVolume_of_free hx.1, Mapping.volume, hm.2.1]; rfl
  | resting q hq hs hω hh | cancelled q hq hs hω hh =>
    rw [copyVolume_of_free hq.free, Mapping.volume, hh]; rfl
  | held q hq hh hs hω => rw [hq.copyVolume, Mapping.volume, hh]; rfl

/-- A row that was activated is closed once the broker holds nothing. -/
theorem Stage.closed (h : Stage x c m) (hh : m.held ≠ none) (h0 : x.copyVolume c = 0) :
    m.status = .closed := by
  cases h with
  | waiting hm hx => exact absurd hm.2.1 hh
  | resting q hq hs hω hn | cancelled q hq hs hω hn => exact absurd hn hh
  | held q hq hh' hs hω =>
    rw [hq.copyVolume] at h0
    rw [hs, if_pos h0]

/-- While the broker holds something, the row is active on the one position that has it. -/
theorem Stage.of_copyVolume (h : Stage x c m) (hpos : 0 < x.copyVolume c) :
    m.status = .active ∧ ∃ q, x.Holds c q ∧ q.volume = x.copyVolume c ∧
      m.held = some ⟨q.id, x.copyVolume c⟩ := by
  cases h with
  | waiting hm hx => rw [copyVolume_of_free hx.1] at hpos; omega
  | resting q hq hs hω hh | cancelled q hq hs hω hh =>
    rw [copyVolume_of_free hq.free] at hpos; omega
  | held q hq hh hs hω =>
    have hv := hq.copyVolume
    rw [hv] at hpos ⊢
    refine ⟨?_, q, hq, rfl, hh⟩
    rw [hs, if_neg (by omega)]

end Row

/-! ### Moves of the broker -/

/-- Only opens of the copy are in flight, and they make it `T`. -/
structure Opening (c : ClientOrderId) (T : ℕ) (x : Account) : Prop where
  noClose : ∀ i ∈ x.requests, ∀ j, i ≠ .closePosition j
  volume : x.copyVolume c + openVolume c x.requests = T

/-- Only closes of the copy are in flight, and they leave `T`. -/
structure Reducing (c : ClientOrderId) (T : ℕ) (x : Account) : Prop where
  noOpen : ∀ i ∈ x.requests, clientOrderIdFor i ≠ some c
  volume : x.dueVolume c = T

section Moves

variable {x x' : Account} {i : SlaveIntent} {rest sent : List SlaveIntent} {c : ClientOrderId}
  {T : ℕ} {s : Mappings}

theorem Opening.quiet (h : Opening c T x) (hq : x.requests = []) : x.copyVolume c = T := by
  have := h.volume
  rw [hq, openVolume_nil] at this
  omega

theorem Reducing.quiet (h : Reducing c T x) (hq : x.requests = []) : x.copyVolume c = T := by
  have hvol := h.volume
  simp only [dueVolume, hq, closeVolume_nil, Nat.sub_zero] at hvol
  exact hvol

theorem Opening.receive (h : Opening c T x) (s : Mappings) (hs : Amends sent) :
    Opening c T (x.receive s sent) where
  noClose i hi j := by
    rcases mem_append.1 hi with hi | hi
    · exact h.noClose i hi j
    · obtain ⟨k, rfl⟩ := hs i hi
      simp
  volume := by
    show x.copyVolume c + openVolume c (x.requests ++ sent) = T
    rw [openVolume_append, openVolume_amends hs]
    exact h.volume

theorem Reducing.receive (h : Reducing c T x) (s : Mappings) (hs : Amends sent) :
    Reducing c T (x.receive s sent) where
  noOpen i hi := by
    rcases mem_append.1 hi with hi | hi
    · exact h.noOpen i hi
    · obtain ⟨k, rfl⟩ := hs i hi
      simp [clientOrderIdFor]
  volume := by
    show x.positions.sum (fun q => if q.clientOrderId = c then
      q.volume - closeVolume q.id (x.requests ++ sent) else 0) = T
    rw [← h.volume]
    refine Table.sum_congr fun q _ => ?_
    rw [closeVolume_append, closeVolume_amends hs, Nat.add_zero]

/-- A rewritten position leaves the sum and its new version enters it. -/
theorem sum_modify_position {q : BrokerPosition} (g : BrokerPosition → ℕ)
    (f : BrokerPosition → BrokerPosition) (p : ∀ r, Keyed.key (f r) = Keyed.key r)
    (hq : q ∈ x.positions.rows) :
    (x.positions.modify q.id f p).sum g + g q = x.positions.sum g + g (f q) :=
  Table.sum_modify g (Table.find_of_mem hq)

theorem opens_of_clientOrderIdFor (h : clientOrderIdFor i ≠ some c) : i.opens c = 0 := by
  cases i with
  | openMarket i => exact if_neg fun he => h (congrArg some he)
  | _ => rfl

/-- Executing an open adds its volume to the copy it names. -/
theorem Opening.execute (h : Opening c T x) (hr : x.requests = i :: rest)
    (hm : Move { x with requests := rest } (some i) x') : Opening c T x' := by
  have hno : ∀ j ∈ rest, ∀ k, j ≠ .closePosition k :=
    fun j hj => h.noClose j (by rw [hr]; exact mem_cons_of_mem i hj)
  have hvol := h.volume
  rw [hr, openVolume_cons] at hvol
  -- moves that leave the positions alone
  have hsame : x'.requests = rest → x'.positions = x.positions → i.opens c = 0 →
      Opening c T x' := by
    intro hrest hpos h0
    refine ⟨by rwa [hrest], ?_⟩
    rw [hrest, Account.copyVolume, hpos]
    rw [h0, Nat.zero_add] at hvol
    exact hvol
  cases hm with
  | idle i hig => exact hsame rfl rfl (opens_of_clientOrderIdFor (by rw [hig.opens]; simp))
  | grow i q hq hv hc =>
    refine ⟨hno, ?_⟩
    have hsum := sum_modify_position (x := x) (fun q => if q.clientOrderId = c then q.volume else 0)
      (addVolume i.volume) (fun _ => rfl) hq
    simp only [Account.copyVolume, opens, ← hc] at hvol ⊢
    by_cases hqc : q.clientOrderId = c
    · simp only [addVolume, hqc, if_true] at hsum hvol
      omega
    · simp only [addVolume, hqc, if_false] at hsum hvol
      omega
  | start i π hf hno' =>
    refine ⟨hno, ?_⟩
    show (x.positions.insert _).sum _ + openVolume c rest = T
    rw [Table.sum_insert _ hf]
    simp only [Account.copyVolume, opens] at hvol
    simp only
    omega
  | close i q hq hi hk => exact absurd rfl (h.noClose _ (by rw [hr]; exact mem_cons_self) i)
  | place i ω hf | resize i q hq hs hi | cancel i q hq hs hi => exact hsame rfl rfl rfl

/-- A resting order that fills is no market copy. -/
theorem Opening.trigger {a : ℕ} (h : Opening c T x) (hb : Booked a s x)
    (hmk : c.isMarketCopy) (hm : Move x none x') : Opening c T x' := by
  cases hm with
  | trigger q π hq hs hf =>
    refine ⟨h.noClose, ?_⟩
    obtain ⟨⟨o, ho⟩, -⟩ := hb.orders q hq
    have hne : q.clientOrderId ≠ c := by
      rintro rfl
      rw [ho] at hmk
      simp [ClientOrderId.isMarketCopy] at hmk
    show (x.positions.insert _).sum _ + openVolume c x.requests = T
    rw [Table.sum_insert _ hf, if_neg hne, Nat.zero_add]
    exact h.volume

theorem dueVolume_eq : x.dueVolume c =
    ((x.positions.rows.filter fun q => q.clientOrderId = c).map fun q =>
      q.volume - closeVolume q.id x.requests).sum := by
  simp only [dueVolume, Table.sum, sum_map_ite]
  simp

/-- Executing a close takes its volume from the position, or all of it. -/
theorem Reducing.execute (h : Reducing c T x) (hr : x.requests = i :: rest)
    (hm : Move { x with requests := rest } (some i) x') : Reducing c T x' := by
  have hno : ∀ j ∈ rest, clientOrderIdFor j ≠ some c :=
    fun j hj => h.noOpen j (by rw [hr]; exact mem_cons_of_mem i hj)
  have hi0 : clientOrderIdFor i ≠ some c := h.noOpen i (by rw [hr]; exact mem_cons_self)
  have hvol := h.volume
  refine ⟨hm.requests ▸ hno, ?_⟩
  rw [dueVolume_eq, hm.copies hi0, hm.requests, ← hvol, dueVolume_eq, hr, map_map]
  refine congrArg sum (map_congr_left fun q _ => ?_)
  rw [closeVolume_cons]
  show q.volume - i.closes q.id - closeVolume q.id rest = _
  omega

/-- A resting order that fills is no market copy. -/
theorem Reducing.trigger {a : ℕ} (h : Reducing c T x) (hb : Booked a s x)
    (hmk : c.isMarketCopy) (hm : Move x none x') : Reducing c T x' := by
  cases hm with
  | trigger q π hq hs hf =>
    refine ⟨h.noOpen, ?_⟩
    obtain ⟨⟨o, ho⟩, -⟩ := hb.orders q hq
    have hne : q.clientOrderId ≠ c := by
      rintro rfl
      rw [ho] at hmk
      simp [ClientOrderId.isMarketCopy] at hmk
    show (x.positions.insert _).sum _ = T
    rw [Table.sum_insert _ hf, if_neg hne, Nat.zero_add]
    exact h.volume

end Moves

/-! ### Steps of the slaves -/

/-- Executions, fills and deliveries: everything but the master's events. -/
def Action.ofSlave : Action → Bool
  | .master _ => false
  | _ => true

section Steps

variable {fleet : Fleet} {s s' : Sys} {act : Action} {a : ℕ} {c : ClientOrderId}

/-- What the moves of an account, its reports and amends keep, every step of the slaves keeps. -/
theorem Fired.account (P : Account → Prop) (hc : Consistent fleet s) (hf : Fired fleet s act s')
    (hact : act.ofSlave) (h : P (s.accounts a))
    (hexec : ∀ i rest x, (s.accounts a).requests = i :: rest →
      Move { s.accounts a with requests := rest } (some i) x → P x)
    (htrig : ∀ x, Booked a s.service.mappings (s.accounts a) → Move (s.accounts a) none x → P x)
    (hpop : ∀ rest, P { s.accounts a with reports := rest })
    (hrecv : ∀ x ms sent, P x → Amends sent → P (x.receive ms sent)) : P (s'.accounts a) := by
  cases hf with
  | master e m hn => simp [Action.ofSlave] at hact
  | execute b fresh i rest x hr hm =>
    by_cases hb : a = b
    · subst hb
      simpa [Sys.setAccount] using hexec i rest x hr hm
    · simpa [Sys.setAccount, hb] using h
  | trigger b ω fresh x hm =>
    by_cases hb : a = b
    · subst hb
      simpa [Sys.setAccount] using htrig x (hc.booked a) hm
    · simpa [Sys.setAccount, hb] using h
  | deliver b r rest hr =>
    refine hrecv _ _ _ ?_ ?_
    · by_cases hb : a = b
      · subst hb
        simpa [Sys.setAccount] using hpop rest
      · simpa [Sys.setAccount, hb] using h
    · intro i hi
      obtain ⟨π, levels, rfl⟩ := handleReport_amend (mem_share.1 hi).1
      exact ⟨_, rfl⟩

theorem Opening.step {T : ℕ} (h : Opening c T (s.accounts a))
    (hmk : c.isMarketCopy) (hc : Consistent fleet s) (hf : Fired fleet s act s') (hact : act.ofSlave) :
    Opening c T (s'.accounts a) := by
  apply hf.account (Opening c T) hc hact h
  · intro i rest x hr hm
    exact h.execute hr hm
  · intro x hb hm
    exact h.trigger hb hmk hm
  · intro rest
    exact ⟨h.noClose, h.volume⟩
  · intro x ms sent hx hs
    exact hx.receive ms hs

theorem Reducing.step {T : ℕ} (h : Reducing c T (s.accounts a))
    (hmk : c.isMarketCopy) (hc : Consistent fleet s) (hf : Fired fleet s act s') (hact : act.ofSlave) :
    Reducing c T (s'.accounts a) := by
  apply hf.account (Reducing c T) hc hact h
  · intro i rest x hr hm
    exact h.execute hr hm
  · intro x hb hm
    exact h.trigger hb hmk hm
  · intro rest
    exact ⟨h.noOpen, h.volume⟩
  · intro x ms sent hx hs
    exact hx.receive ms hs

end Steps

/-! ### What the master's opens and closes send -/

section Share

variable {fleet : Fleet} {s : Sys} {a : ℕ} {c : ClientOrderId} {slaves : List SlaveConfig}
  {e : MasterPositionClosed} {m : Mapping} {sl : SlaveConfig}

theorem dispatch_live {is : List SlaveIntent} (ms : Mappings) (h : ∀ i ∈ is, i.places = none) :
    (dispatch .live is ms).2 = is.filter SlaveIntent.sends := by
  induction is generalizing ms with
  | nil => rfl
  | cons i is ih =>
    show (dispatchOne .live i ms).2 ++ (dispatch .live is (dispatchOne .live i ms).1).2 = _
    rw [ih _ fun j hj => h j (mem_cons_of_mem _ hj)]
    cases i with
    | placePending i => exact absurd (h _ mem_cons_self) (by simp [places])
    | _ => rfl

/-- The step a close is floored to. -/
def SlaveConfig.closeStep (sl : SlaveConfig) (symbolName : String) : ℕ :=
  match sl.symbols symbolName with
  | some sym => sym.stepVolume
  | none => 1

section CloseFor

variable (e : MasterPositionClosed) (sl : SlaveConfig) (entry : PositionMappingEntry)

theorem closeFor_eq : closeFor e sl entry =
    if partialCloseVolume entry.slaveVolume e.closedVolume e.remainingVolume
        (sl.closeStep e.symbolName) = 0 then
      .alert ⟨sl.accountId, "partial close of position " ++ toString e.positionId ++
        " rounds to 0 on slave"⟩
    else .closePosition ⟨sl.accountId, entry.slavePositionId, partialCloseVolume entry.slaveVolume
      e.closedVolume e.remainingVolume (sl.closeStep e.symbolName), some e.positionId⟩ := rfl

/-- A close is sent for the entry's share of its own position, and for nothing else. -/
theorem closeFor_closes (π : ℕ) : (closeFor e sl entry).closes π =
    if entry.slavePositionId = π then
      partialCloseVolume entry.slaveVolume e.closedVolume e.remainingVolume (sl.closeStep e.symbolName)
    else 0 := by
  rw [closeFor_eq]
  by_cases h0 : partialCloseVolume entry.slaveVolume e.closedVolume e.remainingVolume
      (sl.closeStep e.symbolName) = 0
  · rw [if_pos h0, h0, ite_self]
    rfl
  · rw [if_neg h0]
    rfl

theorem closeFor_places : (closeFor e sl entry).places = none := by
  rw [closeFor_eq]
  split_ifs <;> rfl

/-- What is not sent closes nothing. -/
theorem closeFor_unsent (π : ℕ) (h : (closeFor e sl entry).sends = false) :
    (closeFor e sl entry).closes π = 0 := by
  rw [closeFor_eq] at h ⊢
  split_ifs at h ⊢
  · rfl
  · simp [sends] at h

end CloseFor

theorem sum_uncovered {covered : List ℕ} {message : String} {g : SlaveIntent → ℕ}
    (h : ∀ i, g (.alert i) = 0) : ((uncovered slaves covered message).map g).sum = 0 := by
  apply sum_eq_zero
  intro v hv
  obtain ⟨i, hi, rfl⟩ := mem_map.1 hv
  obtain ⟨b, rfl⟩ := mem_uncovered hi
  exact h _

theorem places_positionClosed {ms : MappingState} :
    ∀ i ∈ positionClosed e ms slaves, i.places = none := by
  intro i hi
  rcases mem_append.1 hi with hi | hi
  · obtain ⟨entry, -, sl, -, rfl⟩ := mem_forEntries hi
    exact closeFor_places e sl entry
  · obtain ⟨b, rfl⟩ := mem_uncovered hi
    rfl

/-- What one row makes the account close of position `π`. -/
def rowClose (fleet : Fleet) (e : MasterPositionClosed) (a π : ℕ) (m : Mapping) : ℕ :=
  if m.masterPositionId = some e.positionId ∧ m.status = .active then
    match m.held, byId fleet.slaves m.slaveAccountId with
    | some w, some sl =>
      if sl.accountId = a ∧ w.slavePositionId = π then
        partialCloseVolume w.slaveVolume e.closedVolume e.remainingVolume (sl.closeStep e.symbolName)
      else 0
    | _, _ => 0
  else 0

/-- The closes an account gets, row by row. -/
theorem closeVolume_share_eq (e : MasterPositionClosed) (π : ℕ) :
    closeVolume π (share a (s.reply fleet (.positionClosed e)).2) =
      s.service.mappings.sum (rowClose fleet e a π) := by
  show closeVolume π (((dispatch .live (positionClosed e s.service.mappingState fleet.slaves)
    s.service.mappings).2).filter _) = _
  rw [dispatch_live _ places_positionClosed, closeVolume, sum_map_filter, sum_map_filter]
  simp only [positionClosed, map_append, sum_append, decide_eq_true_eq]
  rw [sum_uncovered fun _ => rfl, Nat.add_zero, sum_map_filterMap]
  simp only [Service.mappingState, positionEntries]
  rw [sum_map_filterMap, Table.sum]
  refine congrArg sum (map_congr_left fun m _ => ?_)
  unfold rowClose
  by_cases hm : m.masterPositionId = some e.positionId ∧ m.status = .active
  · rw [if_pos hm, if_pos hm]
    cases m.held with
    | none => rfl
    | some w =>
      simp only [Option.map_some, Option.getD_some]
      cases hby : byId fleet.slaves m.slaveAccountId with
      | none => rfl
      | some sl =>
        simp only [Option.map_some, Option.getD_some, closeFor_account]
        have hcl := closeFor_closes e sl ⟨m.slaveAccountId, w.slavePositionId, w.slaveVolume⟩ π
        cases hs : (closeFor e sl ⟨m.slaveAccountId, w.slavePositionId, w.slaveVolume⟩).sends with
        | true => simp only [if_true, hcl, ite_and]
        | false =>
          rw [closeFor_unsent _ _ _ _ hs] at hcl
          simp only [ite_and, ← hcl, ite_self, Bool.false_eq_true, if_false]
  · rw [if_neg hm, if_neg hm]
    rfl

/-- The closes of a copy's position come from the copy's row alone. -/
theorem Consistent.closeVolume_row (h : Consistent fleet s) (e : MasterPositionClosed) {π : ℕ}
    (hm : s.service.mappings.find c = some m) (hπ : (s.accounts a).HasPosition c π) :
    closeVolume π (share a (s.reply fleet (.positionClosed e)).2) =
      rowClose fleet e a π m := by
  obtain ⟨hmem, hmc⟩ := Table.find_eq_some hm
  rw [closeVolume_share_eq, Table.sum_eq_single hmem]
  intro m' hm' hne
  unfold rowClose
  split_ifs with hc'
  · split
    · rename_i w' sl' hw' hby
      split_ifs with hp
      · -- the position is only one copy's
        exfalso
        have hfind' := mem_find hm'
        obtain ⟨sl'', hsl'', hacc⟩ := h.covered _ m' hfind'
        have hma' := h.idents.slaveAccountId hfind' hacc
        rw [hma', fleet.byId_of_mem hsl''] at hby
        cases hby
        have hown' := (h.booked a).owned _ m' (hacc.trans (congrArg some hp.1)) hfind'
        have hπ' : m'.slavePositionId = some π := by
          rw [Mapping.slavePositionId, hw', ← hp.2]
          rfl
        exact hne (((hown'.position _ hπ').copy_eq hπ).trans hmc.symm)
      · rfl
    · rfl
  · rfl

/-- The account is asked to close the row's share of the row's position, once. -/
theorem Consistent.closeVolume_share (h : Consistent fleet s) {w : Held} (hsl : sl ∈ fleet.slaves)
    (hca : c.account = some sl.accountId) (hm : s.service.mappings.find c = some m)
    (hlink : m.masterPositionId = some e.positionId) (hact : m.status = .active)
    (hw : m.held = some w) : closeVolume w.slavePositionId
      (share sl.accountId (s.reply fleet (.positionClosed e)).2) =
      partialCloseVolume w.slaveVolume e.closedVolume e.remainingVolume (sl.closeStep e.symbolName) := by
  have hma := h.idents.slaveAccountId hm hca
  have hown := (h.booked sl.accountId).owned c m hca hm
  rw [h.closeVolume_row e hm (hown.position _ (by rw [Mapping.slavePositionId, hw]; rfl))]
  simp [rowClose, hlink, hact, hw, hma, fleet.byId_of_mem hsl]

theorem openFor_places (e : MasterPositionOpened) (sl : SlaveConfig) : (openFor e sl).places = none := by
  rcases openFor_cases e sl with ⟨_, hi⟩ | ⟨_, hi, -⟩ <;> rw [hi] <;> rfl

theorem openFor_ne_close (e : MasterPositionOpened) (sl : SlaveConfig) (j : ClosePosition) :
    openFor e sl ≠ .closePosition j := by
  rcases openFor_cases e sl with ⟨_, hi⟩ | ⟨_, hi, -⟩ <;> rw [hi] <;> simp

/-- The account is asked to open the mirrored volume, once. -/
theorem openVolume_share (e : MasterPositionOpened) {sym : SymbolInfo} (hsl : sl ∈ fleet.slaves)
    (hsym : sl.symbols e.symbolName = some sym) : openVolume (.cm e.positionId sl.accountId)
      (share sl.accountId (s.reply fleet (.positionOpened e)).2) =
      mirrorVolume e.volume e.lotSize sl.multiplier.1 sym.lotSize sym.stepVolume := by
  have hen : enabledSlaves fleet.slaves = fleet.slaves := filter_eq_self.2 fleet.enabled
  have hplaces : ∀ i ∈ positionOpened e fleet.slaves, i.places = none := by
    intro i hi
    obtain ⟨sl', -, rfl⟩ := mem_map.1 hi
    exact openFor_places e sl'
  show openVolume _ (((dispatch .live (positionOpened e fleet.slaves)
    s.service.mappings).2).filter _) = _
  rw [dispatch_live _ hplaces, openVolume, sum_map_filter, sum_map_filter, positionOpened, hen,
    map_map, sum_map_single fleet.nodup hsl]
  · simp only [Function.comp_apply, openFor_account, decide_true, if_true]
    unfold openFor
    simp only [hsym]
    by_cases h0 : mirrorVolume e.volume e.lotSize sl.multiplier.1 sym.lotSize sym.stepVolume = 0
    · rw [if_pos h0, h0]
      rfl
    · rw [if_neg h0]
      simp [sends, opens]
  · intro sl' hsl' hne
    simp only [Function.comp_apply, openFor_account, decide_eq_true_eq, hne, if_false, ite_self]

end Share

end Copier
