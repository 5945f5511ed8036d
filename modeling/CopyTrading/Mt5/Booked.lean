import CopyTrading.Copier.Dispatched
import CopyTrading.Copier.Execution
import CopyTrading.Mt5.CommandLife

/-!
# Mt5.Booked — what a report does to the mappings

A report is booked, then commands are delivered (`sync_booked`).  Each statement writes single rows, so a relation
that every one of them keeps relates a row before the report to the row after it (`Follows`, `Rewrites`); no row
goes away or becomes pending again (`Advances`).  A command of a copy names a mapping of its own account
(`Registered`).
-/

namespace Copier.Mt5

open List Option Server

variable {r : CommandRow}

/-! ### What a statement may do to a mapping -/

/-- Every row is still there, related to what it was. -/
def Evolves (R : Mapping → Mapping → Prop) (ms ms' : Mappings) : Prop :=
  ∀ c m, ms.find c = some m → ∃ m', ms'.find c = some m' ∧ R m m'

section Evolves

variable {R : Mapping → Mapping → Prop} {account : ℕ} {ms ms' ms'' : Mappings} {c : ClientOrderId}
  {m : Mapping} {P : Mapping → Bool} {f : Mapping → Mapping}

theorem Evolves.refl (h : ∀ m, R m m) (ms : Mappings) : Evolves R ms ms := fun _ m hm => ⟨m, hm, h m⟩

theorem Evolves.trans (ht : ∀ m₁ m₂ m₃, R m₁ m₂ → R m₂ m₃ → R m₁ m₃) (h : Evolves R ms ms')
    (h' : Evolves R ms' ms'') : Evolves R ms ms'' := by
  intro c m hm
  obtain ⟨m₁, hm₁, hr₁⟩ := h c m hm
  obtain ⟨m₂, hm₂, hr₂⟩ := h' c m₁ hm₁
  exact ⟨m₂, hm₂, ht m m₁ m₂ hr₁ hr₂⟩

theorem Evolves.isSome (h : Evolves R ms ms') (hc : (ms.find c).isSome) : (ms'.find c).isSome := by
  obtain ⟨m, hm⟩ := isSome_iff_exists.1 hc
  obtain ⟨m', hm', -⟩ := h c m hm
  rw [hm']
  rfl

theorem Rewrites.evolves (h : Rewrites R ms ms') : Evolves R ms ms' := by
  intro c m hm
  obtain ⟨hmem, rfl⟩ := Table.find_eq_some hm
  obtain ⟨m', hm', hc, hr⟩ := h.mem hmem
  refine ⟨m', ?_, hr⟩
  rw [key_mapping, ← hc]
  exact Table.find_of_mem hm'

theorem evolves_insert (hr : ∀ m, R m m) (m : Mapping) : Evolves R ms (ms.insert m) := by
  intro c m' hm'
  refine ⟨m', ?_, hr m'⟩
  rw [Table.find_insert, hm']
  split_ifs <;> rfl

theorem evolves_dispatch (hr : ∀ m, R m m) (ht : ∀ m₁ m₂ m₃, R m₁ m₂ → R m₂ m₃ → R m₁ m₃)
    (hl : ∀ (m : Mapping) p, R m { m with masterPositionId := some p }) (gates : Org) (is : List SlaveIntent)
    (ms : Mappings) : Evolves R ms (Copier.dispatch gates is ms).1 := by
  refine dispatch_rel (.refl hr) (.trans ht) (fun l ms => ?_) (fun _ _ _ _ => evolves_insert hr _) gates is ms
  exact (rewrites_updateFound hr (fun m _ => hl m _) ms).evolves

end Evolves

/-! ### Reports -/

namespace Server

variable {R : Mapping → Mapping → Prop} {cfg : ServerConfig} {gates : Org} {now : ℚ} {account : ℕ}
  {report : FollowerReport} {s : Server}

theorem rewrites_deliver (hR : Follows account R) :
    Rewrites R s.service.mappings (s.deliver now account).1.service.mappings := by
  have hfold : ∀ {α : Type} {f : Mappings → α → Mappings} (_ : ∀ ms x, Rewrites R ms (f ms x)) (xs : List α)
      (ms : Mappings), Rewrites R ms (xs.foldl f ms) := by
    intro α f hf xs
    induction xs with
    | nil => exact .refl hR.refl
    | cons x xs ih => exact fun ms => (hf ms x).trans hR.trans (ih _)
  refine (hfold (fun ms r => ?_) _ _).trans hR.trans (hfold (fun ms r => ?_) _ _)
  · split
    · refine rewrites_updateWhere hR.refl (fun m hm => ?_) ms
      simp only [Bool.and_eq_true] at hm
      exact hR.fail m (Mapping.isCopy_account hm.1)
    · exact .refl hR.refl ms
  · split
    · split_ifs
      · exact .refl hR.refl ms
      · refine rewrites_updateFound hR.refl (fun m hm => ?_) ms
        exact hR.fail m (Mapping.isCopy_account hm)
    · exact .refl hR.refl ms

end Server

/-! ### Mappings only advance -/

/-- A row keeps its account, and one that was not pending is never pending again. -/
def Onward (m m' : Mapping) : Prop :=
  m'.slaveAccountId = m.slaveAccountId ∧ (m'.status = .pending → m.status = .pending)

/-- Every row is still there, and none that was not pending is. -/
abbrev Advances : Mappings → Mappings → Prop := Evolves Onward

theorem Onward.refl (m : Mapping) : Onward m m := ⟨rfl, id⟩

theorem Onward.trans (m₁ m₂ m₃ : Mapping) (h : Onward m₁ m₂) (h' : Onward m₂ m₃) : Onward m₁ m₃ :=
  ⟨h'.1.trans h.1, h.2 ∘ h'.2⟩

theorem follows_onward (account : ℕ) : Follows account Onward where
  refl := Onward.refl
  trans := Onward.trans
  accumulate _ _ _ _ := ⟨rfl, nofun⟩
  reduce m k _ _ := by
    refine ⟨rfl, fun h => ?_⟩
    simp only [Mapping.reduce] at h
    split_ifs at h
  fill _ _ _ _ := ⟨rfl, nofun⟩
  accept _ _ _ := ⟨rfl, nofun⟩
  close _ _ := ⟨rfl, nofun⟩
  fail _ _ := ⟨rfl, nofun⟩

theorem advances_dispatch (gates : Org) (is : List SlaveIntent) (ms : Mappings) :
    Advances ms (Copier.dispatch gates is ms).1 :=
  evolves_dispatch Onward.refl Onward.trans (fun _ _ => ⟨rfl, id⟩) gates is ms

/-! ### Commands of copies -/

/-- The same command, in another state. -/
structure SameLabel (r r' : CommandRow) : Prop where
  id : r'.id = r.id
  accountId : r'.accountId = r.accountId
  payload : r'.payload = r.payload
  clientOrderId : r'.clientOrderId = r.clientOrderId
  closing : r'.closing = r.closing

section SameLabel

variable {r r₁ r₂ r₃ : CommandRow}

theorem SameLabel.refl (r : CommandRow) : SameLabel r r := ⟨rfl, rfl, rfl, rfl, rfl⟩

theorem SameLabel.trans (h : SameLabel r₁ r₂) (h' : SameLabel r₂ r₃) : SameLabel r₁ r₃ :=
  ⟨h'.id.trans h.id, h'.accountId.trans h.accountId, h'.payload.trans h.payload,
    h'.clientOrderId.trans h.clientOrderId, h'.closing.trans h.closing⟩

theorem SameLabel.expires (h : SameLabel r₁ r₂) : r₂.expires = r₁.expires := by
  simp only [CommandRow.expires, h.payload, h.closing]

theorem settles_same (h : Settles r₁ r₂) : SameLabel r₁ r₂ := by
  rcases h with rfl | ⟨-, ok, rfl⟩ <;> exact ⟨rfl, rfl, rfl, rfl, rfl⟩

theorem polled_same (account : ℕ) (now : ℚ) (r : CommandRow) : SameLabel r (r.polled account now) := by
  have hp := polled_cases account now r
  generalize r.polled account now = r' at hp
  cases hp <;> exact ⟨rfl, rfl, rfl, rfl, rfl⟩

theorem failStale_label (account : ℕ) (now : ℚ) (r : CommandRow) : SameLabel r (r.failStale account now) := by
  unfold CommandRow.failStale
  split_ifs <;> exact ⟨rfl, rfl, rfl, rfl, rfl⟩

end SameLabel

/-- What the client order id of a command tells. -/
structure Labelled (r : CommandRow) : Prop where
  account : ∀ c, r.clientOrderId = some c → c.account = some r.accountId
  kind : ∀ c, r.clientOrderId = some c → r.expires = true ∨ r.closing = true
  market : r.payload.kind = .openMarket → ∀ c, r.clientOrderId = some c → c.isMarketCopy
  pending : r.payload.kind = .placePending → ∀ c, r.clientOrderId = some c → ∃ o a, c = .co o a
  closing : r.closing = true → r.payload.kind = .openMarket

theorem labelled_of_none (h : r.clientOrderId = none) (hx : r.closing = false) : Labelled r :=
  ⟨by simp [h], by simp [h], by simp [h], by simp [h], by simp [hx]⟩

theorem Labelled.congr {r' : CommandRow} (h : Labelled r) (hs : SameLabel r r') : Labelled r' := by
  refine ⟨?_, ?_, ?_, ?_, ?_⟩
  · rw [hs.clientOrderId, hs.accountId]
    exact h.account
  · rw [hs.clientOrderId, hs.expires, hs.closing]
    exact h.kind
  · rw [hs.payload, hs.clientOrderId]
    exact h.market
  · rw [hs.payload, hs.clientOrderId]
    exact h.pending
  · rw [hs.payload, hs.closing]
    exact h.closing

/-- A row that is queued for an intent, and the client order id it has. -/
theorem enqueueOne_labelled {cfg : ServerConfig} {now : ℚ} {rows : List CommandRow} {i : SlaveIntent}
    (h : r ∈ enqueueOne cfg now rows i) (hr : r ∉ rows) :
    Labelled r ∧ (r.clientOrderId = clientOrderIdFor i ∨ ∃ r₀ ∈ rows, r₀.clientOrderId = r.clientOrderId) := by
  unfold enqueueOne at h
  split at h
  · exact absurd h hr
  · rcases mem_append.1 h with h | h
    · exact absurd h hr
    · rw [mem_toList] at h
      cases enqueueIntent_cases h with
      | plain i payload hp =>
        refine ⟨?_, .inl rfl⟩
        cases i with
        | openMarket i =>
          cases hp
          exact ⟨fun c hc => some.inj hc ▸ rfl, fun _ _ => .inl rfl, fun _ c hc => some.inj hc ▸ rfl,
            nofun, nofun⟩
        | placePending i =>
          cases hp
          exact ⟨fun c hc => some.inj hc ▸ rfl, fun _ _ => .inl rfl, nofun,
            fun _ c hc => ⟨_, _, (some.inj hc).symm⟩, nofun⟩
        | _ => exact labelled_of_none rfl rfl
      | close i p x hopen =>
        refine ⟨⟨fun c hc => some.inj hc ▸ rfl, fun _ _ => .inr rfl, fun _ c hc => some.inj hc ▸ rfl,
          nofun, fun _ => rfl⟩, .inr ?_⟩
        obtain ⟨r₀, hr₀, hx⟩ := exists_of_findSome?_eq_some hopen
        refine ⟨r₀, hr₀, ?_⟩
        split at hx
        · split_ifs at hx with hc
          exact hc.1
        · cases hx

/-- Every command of a copy is labelled, and its mapping exists. -/
structure Registered (s : Server) : Prop where
  labelled : ∀ r ∈ s.rows, Labelled r
  known : ∀ r ∈ s.rows, ∀ c, r.clientOrderId = some c → (s.service.mappings.find c).isSome

section Registered

variable {cfg : ServerConfig} {gates : Org} {now : ℚ} {s s' : Server} {is : List SlaveIntent}

theorem Registered.enqueue (h : Registered s) {st : Service} (ha : Advances s.service.mappings st.mappings)
    (hi : ∀ i ∈ is, ∀ c, clientOrderIdFor i = some c → (st.mappings.find c).isSome) :
    Registered (s.send cfg now (st, is)) := by
  suffices hrows : ∀ rows : List CommandRow,
      (∀ r ∈ rows, Labelled r ∧ ∀ c, r.clientOrderId = some c → (st.mappings.find c).isSome) →
      ∀ r ∈ is.foldl (enqueueOne cfg now) rows,
        Labelled r ∧ ∀ c, r.clientOrderId = some c → (st.mappings.find c).isSome by
    have hall := hrows s.rows fun r hr => ⟨h.labelled r hr, fun c hc => ha.isSome (h.known r hr c hc)⟩
    exact ⟨fun r hr => (hall r hr).1, fun r hr => (hall r hr).2⟩
  induction is with
  | nil => exact fun _ h => h
  | cons i is ih =>
    intro rows hrows
    refine ih (fun j hj => hi j (mem_cons_of_mem i hj)) _ fun r hr => ?_
    by_cases hold : r ∈ rows
    · exact hrows r hold
    · obtain ⟨hl, hc⟩ := enqueueOne_labelled hr hold
      refine ⟨hl, fun c hrc => ?_⟩
      rcases hc with hc | ⟨r₀, hr₀, hc⟩
      · exact hi i mem_cons_self c (hc ▸ hrc)
      · exact (hrows r₀ hr₀).2 c (hc.trans hrc)

/-- A request's mapping exists once it is sent. -/
theorem dispatch_named {i : SlaveIntent} {ms : Mappings}
    (hi : i ∈ (Copier.dispatch gates is ms).2) {c : ClientOrderId} (hc : clientOrderIdFor i = some c) :
    ((Copier.dispatch gates is ms).1.find c).isSome := by
  -- with a gate closed nothing is sent
  obtain rfl : gates = .live := by
    obtain ⟨enabled, dryRun⟩ := gates
    have hcopies := (dispatch_gated hi).2
    simp only [Org.copies, Bool.and_eq_true, Bool.not_eq_true'] at hcopies
    rw [hcopies.1, hcopies.2]
    rfl
  exact (dispatched is ms).named i hi c hc

theorem Registered.dispatch (h : Registered s) (intents : List SlaveIntent) :
    Registered (s.dispatch cfg gates now intents) :=
  h.enqueue (advances_dispatch gates _ _) fun _ hi _ hc => dispatch_named hi hc

/-- A step that keeps the commands, up to their state. -/
theorem Registered.congr (h : Registered s) (ha : Advances s.service.mappings s'.service.mappings)
    (hrows : ∀ r' ∈ s'.rows, (r'.clientOrderId = none ∧ r'.closing = false) ∨ ∃ r ∈ s.rows, SameLabel r r') :
    Registered s' := by
  refine ⟨fun r' hr' => ?_, fun r' hr' c hc => ?_⟩
  · rcases hrows r' hr' with ⟨hn, hx⟩ | ⟨r, hr, hs⟩
    · exact labelled_of_none hn hx
    · exact (h.labelled r hr).congr hs
  · rcases hrows r' hr' with ⟨hn, -⟩ | ⟨r, hr, hs⟩
    · rw [hn] at hc
      cases hc
    · exact ha.isSome (h.known r hr c (hs.clientOrderId ▸ hc))

end Registered

/-! ### What a report queues -/

/-- Only commands that are no copy's were queued. -/
def Quiet (rows rows' : List CommandRow) : Prop :=
  ∃ new, rows' = rows ++ new ∧ ∀ r ∈ new, r.clientOrderId = none ∧ r.expires = false ∧ r.closing = false

/-- The levels of a new copy are to be set. -/
structure IsAmend (account : ℕ) (r : CommandRow) : Prop where
  accountId : r.accountId = account
  kind : r.payload.kind = .amend
  clientOrderId : r.clientOrderId = none
  closing : r.closing = false
  status : r.status = .queued

/-- Only amends were queued. -/
def Amends (account : ℕ) (rows rows' : List CommandRow) : Prop :=
  ∃ new, rows' = rows ++ new ∧ ∀ r ∈ new, IsAmend account r

section Quiet

variable {cfg : ServerConfig} {gates : Org} {now : ℚ} {account : ℕ} {report : FollowerReport} {s : Server}
  {rows rows' rows'' : List CommandRow}

theorem Amends.refl (account : ℕ) (rows : List CommandRow) : Amends account rows rows :=
  ⟨[], (append_nil rows).symm, fun r hr => by simp at hr⟩

theorem Amends.trans (h : Amends account rows rows') (h' : Amends account rows' rows'') :
    Amends account rows rows'' := by
  obtain ⟨new, rfl, hnew⟩ := h
  obtain ⟨new', rfl, hnew'⟩ := h'
  refine ⟨new ++ new', append_assoc _ _ _, fun r hr => ?_⟩
  rcases mem_append.1 hr with hr | hr
  · exact hnew r hr
  · exact hnew' r hr

theorem Amends.quiet (h : Amends account rows rows') : Quiet rows rows' := by
  obtain ⟨new, hrows, hnew⟩ := h
  refine ⟨new, hrows, fun r hr => ?_⟩
  have hamend := hnew r hr
  refine ⟨hamend.clientOrderId, ?_, hamend.closing⟩
  have hkind := hamend.kind
  unfold CommandRow.expires
  cases hp : r.payload <;> rw [hp] at hkind <;> first | rfl | cases hkind

theorem Quiet.mem (h : Quiet rows rows') {r : CommandRow} (hr : r ∈ rows')
    (hc : r.clientOrderId.isSome ∨ r.expires = true) : r ∈ rows := by
  obtain ⟨new, rfl, hnew⟩ := h
  rcases mem_append.1 hr with hr | hr
  · exact hr
  · rw [(hnew r hr).1, (hnew r hr).2.1] at hc
    rcases hc with hc | hc <;> cases hc

theorem amends_enqueueOne (i : AmendPositionSLTP) :
    Amends i.slaveAccountId rows (enqueueOne cfg now rows (.amendPositionSLTP i)) := by
  unfold enqueueOne
  split
  · exact .refl _ rows
  · refine ⟨_, rfl, fun r hr => ?_⟩
    obtain rfl : _ = r := some.inj (mem_toList.1 hr)
    exact ⟨rfl, rfl, rfl, rfl, rfl⟩

/-- A fill sends at most the levels of the new copy. -/
theorem amends_fill (fill : SlaveFill) :
    Amends account s.rows (s.send cfg now (s.service.handleSlaveFill gates account fill)).rows := by
  have hsent : ∀ i ∈ (s.service.handleSlaveFill gates account fill).2,
      ∃ x : AmendPositionSLTP, x.slaveAccountId = account ∧ i = .amendPositionSLTP x := by
    intro i hi
    obtain ⟨fill', levels, -, rfl⟩ := (bookReport_amend s.service account (.filled fill)).2 i (dispatch_gated hi).1
    exact ⟨_, rfl, rfl⟩
  show Amends account s.rows ((s.service.handleSlaveFill gates account fill).2.foldl (enqueueOne cfg now) s.rows)
  generalize (s.service.handleSlaveFill gates account fill).2 = is at hsent
  generalize s.rows = rows
  induction is generalizing rows with
  | nil => exact .refl account rows
  | cons i is ih =>
    obtain ⟨x, hx, rfl⟩ := hsent i mem_cons_self
    exact (hx ▸ amends_enqueueOne x).trans (ih (fun j hj => hsent j (mem_cons_of_mem _ hj)) _)

/-- A report settles rows and queues amends. -/
theorem amends_booked : Amends account (applyAcks account s.rows report.acks).1
    (s.booked cfg gates now account report).rows := by
  refine Server.booked_rel (R := fun s s' => Amends account s.rows s'.rows) (fun s => .refl account s.rows)
    Amends.trans (fun {s s'} h => ?_) fun s _ _ => .refl account s.rows
  cases h with
  | writes st f _ => exact .refl account s.rows
  | fill fill => exact amends_fill fill

/-- A report settles rows and queues no command of a copy. -/
theorem quiet_booked :
    Quiet (applyAcks account s.rows report.acks).1 (s.booked cfg gates now account report).rows :=
      amends_booked.quiet

/-- The rows after a report: settled, queued for no copy, and delivered. -/
theorem sync_quiet (cfg : ServerConfig) (gates : Org) (now : ℚ) (account : ℕ) (s : Server)
    (report : FollowerReport) :
    ∃ f new, (∀ r, Settles r (f r)) ∧ (∀ r ∈ new, r.clientOrderId = none ∧ r.closing = false) ∧
      (s.sync cfg gates now account report).1.rows =
        (s.rows.map f ++ new).map (CommandRow.polled account now) ∧
      (s.sync cfg gates now account report).2 =
        (unexpired account now (s.rows.map f ++ new)).filter fun r => r.due account now := by
  obtain ⟨f, hf, hs⟩ := applyAcks_rows account s.rows report.acks
  obtain ⟨new, hrows, hnew⟩ :
      Quiet (applyAcks account s.rows report.acks).1 (s.booked cfg gates now account report).rows := quiet_booked
  rw [hf] at hrows
  refine ⟨f, new, hs, fun r hr => ⟨(hnew r hr).1, (hnew r hr).2.2⟩, ?_, ?_⟩
  · rw [Server.sync_booked]
    simp only [Server.deliver, deliverable, unexpired, List.map_map, hrows]
    rfl
  · rw [Server.sync_booked]
    simp only [Server.deliver, deliverable, hrows]

theorem Registered.sync (h : Registered s) : Registered (s.sync cfg gates now account report).1 := by
  obtain ⟨f, new, hf, hnew, hrows, -⟩ := sync_quiet cfg gates now account s report
  refine h.congr ?_ fun r' hr' => ?_
  · rw [Server.sync_booked]
    exact ((rewrites_booked (follows_onward account)).trans Onward.trans
      (rewrites_deliver (follows_onward account))).evolves
  · rw [hrows] at hr'
    obtain ⟨r₁, hr₁, rfl⟩ := mem_map.1 hr'
    have hp := polled_same account now r₁
    rcases mem_append.1 hr₁ with hr₁ | hr₁
    · obtain ⟨r, hr, rfl⟩ := mem_map.1 hr₁
      exact .inr ⟨r, hr, (settles_same (hf r)).trans hp⟩
    · exact .inl ⟨hp.clientOrderId.trans (hnew r₁ hr₁).1, hp.closing.trans (hnew r₁ hr₁).2⟩

end Quiet

/-! ### Acknowledgements -/

section Acks

variable {account : ℕ} {rows : List CommandRow}

/-- **What acknowledgements do to a row**: nothing, if it is not open, not the account's or not named; else the
first that names it settles it and is an outcome. -/
theorem applyAcks_cases (account : ℕ) (hn : Numbered rows) (acks : List Ack) :
    ∃ f, (applyAcks account rows acks).1 = rows.map f ∧ ∀ r ∈ rows,
      (f r = r ∧ (r.isOpen = true → r.accountId = account → ∀ k ∈ acks, k.commandId ≠ r.id)) ∨
      (r.isOpen = true ∧ r.accountId = account ∧ ∃ k ∈ acks, k.commandId = r.id ∧
        f r = { r with status := if k.result.ok then .done else .failed } ∧
        r.outcome k ∈ (applyAcks account rows acks).2) := by
  induction acks generalizing rows with
  | nil => exact ⟨id, (map_id _).symm, fun r _ => .inl ⟨rfl, nofun⟩⟩
  | cons k acks ih =>
    rw [applyAcks]
    split
    · next hnone =>
      obtain ⟨f, hf, hall⟩ := ih hn
      refine ⟨f, hf, fun r hr => ?_⟩
      rcases hall r hr with ⟨he, hno⟩ | ⟨ho, ha, k', hk', hid, he, hout⟩
      · refine .inl ⟨he, fun ho ha k' hk' => ?_⟩
        rcases mem_cons.1 hk' with rfl | hk'
        · intro hid
          refine find?_eq_none.1 hnone r hr ?_
          simp [CommandRow.awaits, hid, ho, ha]
        · exact hno ho ha k' hk'
      · exact .inr ⟨ho, ha, k', mem_cons_of_mem k hk', hid, he, hout⟩
    · next r₀ hr₀ =>
      have hr₀mem := mem_of_find?_eq_some hr₀
      have hr₀a := find?_some hr₀
      simp only [CommandRow.awaits, Bool.and_eq_true, decide_eq_true_eq] at hr₀a
      have hn' : Numbered (rows.map (CommandRow.complete account k.commandId k.result.ok)) :=
        hn.map fun r => settles_id (settles_complete k.commandId k.result.ok r)
      obtain ⟨f, hf, hall⟩ := ih hn'
      refine ⟨f ∘ CommandRow.complete account k.commandId k.result.ok, ?_, fun r hr => ?_⟩
      · rw [hf, List.map_map]
      · have hx := hall _ (List.mem_map_of_mem hr)
        by_cases hnamed : r.id = k.commandId ∧ r.isOpen ∧ r.accountId = account
        · -- the row is the one that was found
          obtain rfl : r₀ = r := hn.unique hr₀mem hr (hr₀a.1.1.trans hnamed.1.symm)
          have hc : r₀.complete account k.commandId k.result.ok =
              { r₀ with status := if k.result.ok then .done else .failed } := if_pos hnamed
          refine .inr ⟨hnamed.2.1, hnamed.2.2, k, mem_cons_self, hnamed.1.symm, ?_, mem_cons_self⟩
          rw [Function.comp_apply]
          rw [hc] at hx ⊢
          rcases hx with ⟨he, -⟩ | ⟨ho, -⟩
          · exact he
          · rw [isOpen_settled] at ho
            cases ho
        · have hc : r.complete account k.commandId k.result.ok = r := if_neg hnamed
          rw [hc] at hx
          rw [Function.comp_apply, hc]
          rcases hx with ⟨he, hno⟩ | ⟨ho, ha, k', hk', hid, he, hout⟩
          · refine .inl ⟨he, fun ho ha k' hk' => ?_⟩
            rcases mem_cons.1 hk' with rfl | hk'
            · exact fun hid => hnamed ⟨hid.symm, ho, ha⟩
            · exact hno ho ha k' hk'
          · exact .inr ⟨ho, ha, k', mem_cons_of_mem k hk', hid, he, mem_cons_of_mem _ hout⟩

/-- The rows of copies once a report is booked. -/
theorem booked_cases {cfg : ServerConfig} {gates : Org} {now : ℚ} {report : FollowerReport} {s : Server}
    (hn : Numbered s.rows) {r' : CommandRow} (hr : r' ∈ (s.booked cfg gates now account report).rows)
    (hc : r'.clientOrderId.isSome ∨ r'.expires = true) :
    ∃ r ∈ s.rows,
      (r' = r ∧ (r.isOpen = true → r.accountId = account → ∀ k ∈ report.acks, k.commandId ≠ r.id)) ∨
      (r.isOpen = true ∧ r.accountId = account ∧ ∃ k ∈ report.acks, k.commandId = r.id ∧
        r' = { r with status := if k.result.ok then .done else .failed } ∧
        r.outcome k ∈ (applyAcks account s.rows report.acks).2) := by
  have hmem := quiet_booked.mem hr hc
  obtain ⟨f, hf, hall⟩ := applyAcks_cases account hn report.acks
  rw [hf] at hmem
  obtain ⟨r, hrow, rfl⟩ := mem_map.1 hmem
  exact ⟨r, hrow, hall r hrow⟩

end Acks

end Copier.Mt5
