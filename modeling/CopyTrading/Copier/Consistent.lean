import CopyTrading.Copier.Bookkeeping

/-!
# Copier.Consistent — the mappings follow the brokers along every run

Master events and reports reach the accounts through `receive`; with the moves of the brokers these
are all the actions of the system.  So the invariant of the accounts holds in every state of every
run, whatever the interleaving.
-/

namespace Copier

open List Option Table

variable {e : MasterEvent} {ms : MappingState} {slaves : List SlaveConfig} {i : SlaveIntent}

/-! ### Requests reach an account -/

section Receive

variable {a : ℕ} {s s' : Mappings} {x : Account} {is sent : List SlaveIntent} {c : ClientOrderId}

theorem Ident.link {m : Mapping} {q : Option ℕ} (h : Ident c m)
    (hq : q = m.masterPositionId ∨ ∃ o, m.masterOrderId = some o) :
    Ident c { m with masterPositionId := q } := by
  cases c with
  | cm p a =>
    obtain ⟨ha, hp, ho⟩ := h
    rcases hq with rfl | ⟨o, hq⟩
    · exact ⟨ha, hp, ho⟩
    · rw [ho] at hq
      simp at hq
  | co o a | other x => exact h

theorem Dispatched.idents (h : Dispatched is s s' sent) (hid : Idents s) : Idents s' := by
  intro c m' hm'
  cases hc : s.find c with
  | none => exact (h.new c m' hc hm').1
  | some m =>
    obtain ⟨q, hq, hl⟩ := h.keeps c m hc
    cases hq.symm.trans hm'
    refine (hid c m hc).link (hl.imp_right ?_)
    rintro ⟨i, -, -, ho⟩
    exact ⟨_, ho⟩

theorem Dispatched.isSome (h : Dispatched is s s' sent) (hc : (s.find c).isSome) :
    (s'.find c).isSome := by
  obtain ⟨m, hm⟩ := isSome_iff_exists.1 hc
  obtain ⟨q, hq, -⟩ := h.keeps c m hm
  rw [hq]
  rfl

/-- The account's share of what is sent. -/
abbrev share (a : ℕ) (sent : List SlaveIntent) : List SlaveIntent := sent.filter fun i => i.slaveAccountId = a

theorem mem_share {i : SlaveIntent} : i ∈ share a sent ↔ i ∈ sent ∧ i.slaveAccountId = a := by
  rw [mem_filter, decide_eq_true_eq]

/-- The broker knows no copy without a row. -/
theorem Booked.noTrace (h : Booked a s x) (hc : s.find c = none) : x.NoTrace c := by
  constructor
  · rintro q hq rfl
    have := (h.positions q hq).2
    rw [hc] at this
    simp at this
  · rintro q hq rfl
    have := (h.orders q hq).2.2
    rw [hc] at this
    simp at this

theorem Booked.receive (h : Booked a s x) (hd : Dispatched is s s' sent)
    (hw : ∀ i ∈ is, i.Wf i.slaveAccountId) :
    Booked a s' (x.receive s' (share a sent)) where
  requests := by
    refine forall_mem_append.2 ⟨h.requests, fun i hi => ?_⟩
    obtain ⟨hi, ha⟩ := mem_share.1 hi
    have := hw i (hd.sent_sub hi)
    rwa [ha] at this
  named := forall_mem_append.2 ⟨fun i hi c hc => hd.isSome (h.named i hi c hc),
    fun i hi => hd.named i (mem_of_mem_filter hi)⟩
  placing := forall_mem_append.2
    ⟨h.placing, fun i hi c hc => h.noTrace (hd.places i (mem_of_mem_filter hi) c hc)⟩
  nodup := by
    show ((x.requests ++ _).filterMap SlaveIntent.places).Nodup
    rw [filterMap_append, nodup_append]
    refine ⟨h.nodup, hd.nodup.sublist (filter_sublist.filterMap _), ?_⟩
    intro c hc c' hc' he
    subst he
    -- what waits has its row, what is sent now had none
    obtain ⟨i, hi, hic⟩ := mem_filterMap.1 hc
    obtain ⟨j, hj, hjc⟩ := mem_filterMap.1 hc'
    have hrow := h.named i hi c (clientOrderIdFor_of_places hic)
    rw [hd.places j (mem_of_mem_filter hj) c hjc] at hrow
    simp at hrow
  reports r hr := by
    obtain ⟨c, hc, hs⟩ := h.reports r hr
    exact ⟨c, hc.extends (.of_eq rfl rfl), hd.isSome hs⟩
  positions q hq := ⟨(h.positions q hq).1, hd.isSome (h.positions q hq).2⟩
  orders q hq := ⟨(h.orders q hq).1, (h.orders q hq).2.1, hd.isSome (h.orders q hq).2.2⟩
  owned c m' hc hm' := by
    cases hs : s.find c with
    | none =>
      obtain ⟨-, hun, -⟩ := hd.new c m' hs hm'
      exact (Stage.waiting hun (h.noTrace hs)).owned.extends (.of_eq rfl rfl)
    | some m =>
      obtain ⟨q, hq, -⟩ := hd.keeps c m hs
      cases hq.symm.trans hm'
      exact ⟨(h.owned c m hc hs).position, (h.owned c m hc hs).order⟩
  row c m' hc hm' := by
    cases hs : s.find c with
    | none =>
      obtain ⟨-, hun, -⟩ := hd.new c m' hs hm'
      have hmc : m'.clientOrderId = c := (find_eq_some hm').2
      have hself : settle a x.reports m' = m' := by
        refine settle_untouched hun fun r hr he => ?_
        obtain ⟨c₀, hc₀, hrow⟩ := h.reports r hr
        rw [← hc₀.names he, hmc, hs] at hrow
        simp at hrow
      show Stage _ c (settle a x.reports m')
      rw [hself]
      exact .waiting hun (h.noTrace hs)
    | some m =>
      obtain ⟨q, hq, -⟩ := hd.keeps c m hs
      cases hq.symm.trans hm'
      show Stage _ c (settle a x.reports _)
      rw [settle_link]
      exact ((h.row c m hc hs).link q).congr (fun _ _ => Iff.rfl) fun _ _ => Iff.rfl

end Receive

/-! ### What the decision core sends -/

theorem decide_wf (h : i ∈ decide e ms slaves) : i.Wf i.slaveAccountId := by
  refine ⟨rfl, ?_⟩
  cases decided h with
  | openMarket e sl i hsl hi ha hp hv hL | placePending e sl i hsl hi ha ho hv hL
  | amendPending e entry sl v hentry hby hv => exact hv
  | _ => trivial

/-- Copies are opened by opens and placed by placed orders, for slaves of the fleet. -/
theorem decide_opens {c : ClientOrderId} (h : i ∈ decide e ms slaves)
    (hc : clientOrderIdFor i = some c) : ∃ sl ∈ slaves,
      (∃ e', e = .positionOpened e' ∧ i = openFor e' sl ∧ c = .cm e'.positionId sl.accountId) ∨
      ∃ e', e = .pendingPlaced e' ∧ i = placeFor e' sl ∧ c = .co e'.orderId sl.accountId := by
  cases decided h with
  | openMarket e sl i hsl hi ha hp hv hL =>
    cases hc
    exact ⟨sl, hsl, .inl ⟨e, rfl, hi.symm, by rw [ha, hp]⟩⟩
  | placePending e sl i hsl hi ha ho hv hL =>
    cases hc
    exact ⟨sl, hsl, .inr ⟨e, rfl, hi.symm, by rw [ha, ho]⟩⟩
  | _ => cases hc

/-- A fleet's slave is the record its account id names. -/
theorem Fleet.byId_of_mem (fleet : Fleet) {sl : SlaveConfig} (h : sl ∈ fleet.slaves) :
    byId fleet.slaves sl.accountId = some sl := by
  have hen : enabledSlaves fleet.slaves = fleet.slaves := filter_eq_self.2 fleet.enabled
  unfold byId
  rw [hen]
  cases hf : fleet.slaves.reverse.find? fun x => Decidable.decide (x.accountId = sl.accountId) with
  | none =>
    have := find?_eq_none.1 hf sl (mem_reverse.2 h)
    simp at this
  | some sl' =>
    have hm := mem_reverse.1 (mem_of_find?_eq_some hf)
    have ha : sl'.accountId = sl.accountId := by simpa using find?_some hf
    rw [inj_on_of_nodup_map fleet.nodup hm h ha]

/-! ### A report reaches the service -/

section Deliver

variable {a b : ℕ} {st : Service} {r : Report} {x : Account} {is : List SlaveIntent}
  {c : ClientOrderId} {i : SlaveIntent}

/-- Requests that create no row leave the mappings as they are. -/
theorem dispatched_amends (s : Mappings) (h : ∀ i ∈ is, clientOrderIdFor i = none) :
    Dispatched is s s is := by
  have hp : ∀ i ∈ is, i.places = none := by
    intro i hi
    cases hc : i.places with
    | none => rfl
    | some c => exact absurd (clientOrderIdFor_of_places hc) (by simp [h i hi])
  refine { Dispatched.refl is s with
    sent_sub := Subset.refl _
    new := fun c m hn hm => absurd (hn.symm.trans hm) (by simp)
    named := fun i hi c hc => ?_
    places := fun i hi c hc => ?_
    nodup := ?_ }
  · rw [h i hi] at hc
    simp at hc
  · rw [hp i hi] at hc
    simp at hc
  · have hnil : is.filterMap SlaveIntent.places = [] := filterMap_eq_nil_iff.2 hp
    rw [hnil]
    exact nodup_nil

/-- Handling a report sends amends at most. -/
theorem handleReport_amend (h : i ∈ (st.handleReport .live a r).2) :
    ∃ π levels, i = .amendPositionSLTP ⟨a, π, levels⟩ := by
  obtain ⟨fill, levels, -, rfl⟩ := (bookReport_amend st a r).2 i (dispatch_gated h).1
  exact ⟨fill.positionId, levels, rfl⟩

theorem isSome_handleReport (c : ClientOrderId) :
    ((st.handleReport .live a r).1.mappings.find c).isSome = (st.mappings.find c).isSome := by
  rw [find_handleReport, isSome_map]

theorem Ident.bookRow {m : Mapping} (h : Ident c m) : Ident c (bookRow a r m) := by
  cases c with
  | cm p b | co o b => simpa [Ident] using h
  | other y => exact h

theorem Idents.handleReport (h : Idents st.mappings) :
    Idents (st.handleReport .live a r).1.mappings := by
  intro c m hm
  rw [find_handleReport] at hm
  obtain ⟨m₀, hm₀, rfl⟩ := map_eq_some_iff.1 hm
  exact (h c m₀ hm₀).bookRow

/-- A report adds and removes no row. -/
theorem Booked.rows {rest : List Report} (h : Booked a s x) (hrest : rest ⊆ x.reports)
    (hsome : ∀ c, (s'.find c).isSome = (s.find c).isSome)
    (howned : ∀ c m, c.account = some a → s'.find c = some m → Owned x c m)
    (hrow : ∀ c m, c.account = some a → s'.find c = some m → Stage x c (settle a rest m)) :
    Booked a s' { x with reports := rest } where
  requests := h.requests
  named i hi c hc := by
    rw [hsome]
    exact h.named i hi c hc
  placing := h.placing
  nodup := h.nodup
  reports r hr := by
    obtain ⟨c, hc, hs⟩ := h.reports r (hrest hr)
    exact ⟨c, hc.extends (.of_eq rfl rfl), by rwa [hsome]⟩
  positions q hq := by
    rw [hsome]
    exact h.positions q hq
  orders q hq := by
    rw [hsome]
    exact h.orders q hq
  owned c m hc hm := (howned c m hc hm).extends (.of_eq rfl rfl)
  row c m hc hm := (hrow c m hc hm).congr (fun _ _ => Iff.rfl) fun _ _ => Iff.rfl

/-- Handling the oldest report leaves the settled rows as they are. -/
theorem Booked.handleReport {rest : List Report} (h : Booked a st.mappings x)
    (hr : x.reports = r :: rest) :
    Booked a (st.handleReport .live a r).1.mappings { x with reports := rest } := by
  refine h.rows (by rw [hr]; exact subset_cons_self r rest) isSome_handleReport
    (fun c m hc hm => ?_) fun c m hc hm => ?_
  · rw [find_handleReport] at hm
    obtain ⟨m₀, hm₀, rfl⟩ := map_eq_some_iff.1 hm
    obtain ⟨c₀, hc₀, -⟩ := h.reports r (by rw [hr]; exact mem_cons_self)
    exact (h.owned c m₀ hc hm₀).bookRow (find_eq_some hm₀).2 hc₀
  · rw [find_handleReport] at hm
    obtain ⟨m₀, hm₀, rfl⟩ := map_eq_some_iff.1 hm
    have hst := h.row c m₀ hc hm₀
    rwa [hr, settle_cons] at hst

/-- A report of another account changes none of the account's rows. -/
theorem find_handleReport_other (hid : Idents st.mappings) (hc : c.account = some b) (hne : b ≠ a) :
    (st.handleReport .live a r).1.mappings.find c = st.mappings.find c := by
  rw [find_handleReport]
  cases hm : st.mappings.find c with
  | none => rfl
  | some m =>
    have ha : m.slaveAccountId ≠ a := by
      rw [hid.slaveAccountId hm hc]
      exact hne
    rw [map_some, bookRow_of_ne ha]

theorem Booked.handleReport_other (h : Booked b st.mappings x) (hid : Idents st.mappings)
    (hne : b ≠ a) : Booked b (st.handleReport .live a r).1.mappings x := by
  refine h.rows (Subset.refl _) isSome_handleReport (fun c m hc hm => ?_) fun c m hc hm => ?_
  · rw [find_handleReport_other hid hc hne] at hm
    exact h.owned c m hc hm
  · rw [find_handleReport_other hid hc hne] at hm
    exact h.row c m hc hm

/-- What handling a report sends opens nothing. -/
theorem handleReport_opens (c : ClientOrderId) :
    ∀ i ∈ share b (st.handleReport .live a r).2, clientOrderIdFor i ≠ some c := by
  intro i hi
  obtain ⟨π, levels, rfl⟩ := handleReport_amend (mem_share.1 hi).1
  simp [clientOrderIdFor]

end Deliver

/-! ### Runs -/

/-- Everything an action can do. -/
inductive Fired (fleet : Fleet) (s : Sys) : Action → Sys → Prop
  | master (e : MasterEvent) (m : Master) (h : s.master.Next e m) :
      Fired fleet s (.master e)
        ({ s with master := m }.answer (s.service.onMasterEvent .live fleet.slaves e))
  | execute (a fresh : ℕ) (i : SlaveIntent) (rest : List SlaveIntent) (x : Account)
      (hr : (s.accounts a).requests = i :: rest)
      (hm : Move { s.accounts a with requests := rest } (some i) x) :
      Fired fleet s (.execute a fresh) (s.setAccount a x)
  | trigger (a ω fresh : ℕ) (x : Account) (hm : Move (s.accounts a) none x) :
      Fired fleet s (.trigger a ω fresh) (s.setAccount a x)
  | deliver (a : ℕ) (r : Report) (rest : List Report) (hr : (s.accounts a).reports = r :: rest) :
      Fired fleet s (.deliver a) ((s.setAccount a { s.accounts a with reports := rest }).answer
        (s.service.handleReport .live a r))

/-- What the service answers to a master event. -/
abbrev Sys.reply (fleet : Fleet) (s : Sys) (e : MasterEvent) : Service × List SlaveIntent :=
  s.service.onMasterEvent .live fleet.slaves e

/-- The account after the answer to a master event. -/
abbrev Sys.after (fleet : Fleet) (s : Sys) (e : MasterEvent) (a : ℕ) : Account :=
  (s.accounts a).receive (s.reply fleet e).1.mappings
    ((s.reply fleet e).2.filter fun i => i.slaveAccountId = a)

/-- The settled rows say what the brokers hold, and every row is a slave's of the fleet. -/
structure Consistent (fleet : Fleet) (s : Sys) : Prop where
  idents : Idents s.service.mappings
  covered : ∀ c m, s.service.mappings.find c = some m →
    ∃ sl ∈ fleet.slaves, c.account = some sl.accountId
  booked : ∀ a, Booked a s.service.mappings (s.accounts a)

section Runs

variable {fleet : Fleet} {ok : Action → Sys → Prop} {act : Action} {s s' : Sys} {a : ℕ}
  {x : Account} {m : Mapping} {c : ClientOrderId}

theorem fired (h : fire fleet act s = some s') (hl : act.Lands s) : Fired fleet s act s' := by
  cases act with
  | master e =>
    obtain ⟨m, hm, rfl⟩ := map_eq_some_iff.1 h
    exact .master e m (Master.next_cases hm)
  | execute a fresh =>
    simp only [fire] at h
    cases hr : (s.accounts a).requests with
    | nil => simp [hr] at h
    | cons i rest =>
      rw [hr] at h
      obtain ⟨x, hx, rfl⟩ := map_eq_some_iff.1 h
      refine .execute a fresh i rest x hr (move_of_execute hx fun j hj => ?_)
      exact hl j (by rw [hr, hj]; rfl)
  | trigger a ω fresh =>
    obtain ⟨x, hx, rfl⟩ := map_eq_some_iff.1 h
    exact .trigger a ω fresh x (move_of_trigger hx hl)
  | deliver a =>
    simp only [fire] at h
    cases hr : (s.accounts a).reports with
    | nil => simp [hr] at h
    | cons r rest =>
      rw [hr] at h
      cases h
      exact .deliver a r rest hr

theorem Booked.init (a : ℕ) : Booked a Sys.init.service.mappings (Sys.init.accounts a) where
  requests i hi := absurd hi (by simp [Sys.init, Account.empty])
  named i hi := absurd hi (by simp [Sys.init, Account.empty])
  placing i hi := absurd hi (by simp [Sys.init, Account.empty])
  nodup := nodup_nil
  reports r hr := absurd hr (by simp [Sys.init, Account.empty])
  positions q hq := absurd hq (by simp [Sys.init, Account.empty, empty])
  orders q hq := absurd hq (by simp [Sys.init, Account.empty, empty])
  owned c m hc hm := absurd hm (by simp [Sys.init, empty, find])
  row c m hc hm := absurd hm (by simp [Sys.init, empty, find])

theorem Consistent.init : Consistent fleet Sys.init where
  idents c m hm := absurd hm (by simp [Sys.init, empty, find])
  covered c m hm := absurd hm (by simp [Sys.init, empty, find])
  booked := Booked.init

theorem Consistent.setAccount (h : Consistent fleet s)
    (hx : Booked a s.service.mappings x) : Consistent fleet (s.setAccount a x) where
  idents := h.idents
  covered := h.covered
  booked b := by
    by_cases hb : b = a
    · subst hb
      simpa [Sys.setAccount] using hx
    · simpa [Sys.setAccount, hb] using h.booked b

theorem Consistent.move {i : SlaveIntent} {rest : List SlaveIntent}
    (h : Consistent fleet s) (hr : (s.accounts a).requests = i :: rest)
    (hm : Move { s.accounts a with requests := rest } (some i) x) :
    Booked a s.service.mappings x := by
  obtain ⟨hb, hready⟩ := (h.booked a).pop hr
  refine hb.move h.idents ?_ hm
  rintro j hj
  cases hj
  exact hready

theorem Consistent.step (h : Consistent fleet s) (hf : Fired fleet s act s') : Consistent fleet s' := by
  cases hf with
  | master e m hm =>
    have hd := dispatched (decide e s.service.mappingState fleet.slaves) s.service.mappings
    refine ⟨hd.idents h.idents, fun c m hm => ?_, fun a => (h.booked a).receive hd fun i hi => decide_wf hi⟩
    cases hc : s.service.mappings.find c with
    | some m₀ => exact h.covered c m₀ hc
    | none =>
      obtain ⟨-, -, i, hi, hic⟩ := hd.new c m hc hm
      obtain ⟨sl, hsl, ⟨e', -, -, rfl⟩ | ⟨e', -, -, rfl⟩⟩ := decide_opens (hd.sent_sub hi) hic
      · exact ⟨sl, hsl, rfl⟩
      · exact ⟨sl, hsl, rfl⟩
  | execute a fresh i rest x hr hm => exact h.setAccount (h.move hr hm)
  | trigger a ω fresh x hm =>
    refine h.setAccount ((h.booked a).move h.idents ?_ hm)
    rintro i hi
    simp at hi
  | deliver a r rest hr =>
    have hamend : ∀ i ∈ (s.service.handleReport .live a r).2,
        clientOrderIdFor i = none ∧ i.Wf i.slaveAccountId := by
      intro i hi
      obtain ⟨π, levels, rfl⟩ := handleReport_amend hi
      exact ⟨rfl, rfl, trivial⟩
    have hd := dispatched_amends (s.service.handleReport .live a r).1.mappings
      fun i hi => (hamend i hi).1
    refine ⟨h.idents.handleReport, fun c m hm => ?_, fun b => ?_⟩
    · change (s.service.handleReport .live a r).1.mappings.find c = some m at hm
      rw [find_handleReport] at hm
      obtain ⟨m₀, hm₀, -⟩ := map_eq_some_iff.1 hm
      exact h.covered c m₀ hm₀
    refine Booked.receive ?_ hd fun i hi => (hamend i hi).2
    by_cases hb : b = a
    · subst hb
      simpa [Sys.setAccount] using (h.booked b).handleReport hr
    · simpa [Sys.setAccount, hb] using (h.booked b).handleReport_other h.idents hb

theorem mem_find (h : m ∈ s.service.mappings.rows) :
    s.service.mappings.find m.clientOrderId = some m := find_of_mem h

/-- The slave of a row. -/
theorem Consistent.slave (h : Consistent fleet s)
    (hca : c.account = some a) (hm : s.service.mappings.find c = some m) :
    ∃ sl, sl.accountId = a ∧ byId fleet.slaves m.slaveAccountId = some sl := by
  obtain ⟨sl, hsl, hacc⟩ := h.covered c m hm
  have ha : sl.accountId = a := some.inj (hacc.symm.trans hca)
  refine ⟨sl, ha, ?_⟩
  rw [h.idents.slaveAccountId hm hca, ← ha]
  exact fleet.byId_of_mem hsl

/-- While no open of the copy is reported, its row says at least what the broker holds. -/
theorem Consistent.lowered (h : Consistent fleet s)
    (hca : c.account = some a) (hm : s.service.mappings.find c = some m)
    (hn : ∀ r ∈ (s.accounts a).reports, r.names ≠ some c) :
    Lowered m (settle a (s.accounts a).reports m) := by
  refine ((h.booked a).owned c m hca hm).settle_lowered (find_eq_some hm).2 (fun r hr => ?_) hn
  obtain ⟨c₀, hc₀, -⟩ := (h.booked a).reports r hr
  exact ⟨c₀, hc₀⟩

/-- **The mappings follow the brokers** in every state of every run. -/
theorem consistent_of_run (h : Runs fleet ok Sys.init s) : Consistent fleet s :=
  Machine.Run.invariant h Consistent.init fun _ _ _ hok ht hf => ht.step (fired hf hok.1)

/-- What the actions keep in consistent states holds along every run from one. -/
theorem Consistent.invariant {P : Sys → Prop} (hc : Consistent fleet s) (h : Runs fleet ok s s') (h₀ : P s)
    (hstep : ∀ act t u, ok act t → Consistent fleet t → Fired fleet t act u → P t → P u) : P s' := by
  have hboth : Consistent fleet s' ∧ P s' := by
    refine Machine.Run.invariant (P := fun s => Consistent fleet s ∧ P s) h ⟨hc, h₀⟩ ?_
    rintro act t u hok ⟨ht, hp⟩ hf
    exact ⟨ht.step (fired hf hok.1), hstep act t u hok.2 ht (fired hf hok.1) hp⟩
  exact hboth.2

/-- **The books are exact once they are delivered.**  Whatever requests are in flight: an account whose reports
were all handled has a position with volume, or a resting order, exactly where an active row says so. -/
theorem books_exact_when_delivered (h : Runs fleet ok Sys.init s) (hr : (s.accounts a).reports = []) :
    (∀ q ∈ (s.accounts a).positions.rows, 0 < q.volume → ∃ m,
      s.service.mappings.find q.clientOrderId = some m ∧ m.status = .active ∧ m.held = some ⟨q.id, q.volume⟩) ∧
    (∀ o ∈ (s.accounts a).orders.rows, o.status = .resting → ∃ m,
      s.service.mappings.find o.clientOrderId = some m ∧ m.status = .active ∧ m.slaveOrderId = some o.id ∧
        m.held = none) ∧
    ∀ c m, c.account = some a → s.service.mappings.find c = some m → m.status = .active →
      (∃ q ∈ (s.accounts a).positions.rows, q.clientOrderId = c ∧ 0 < q.volume ∧
        m.held = some ⟨q.id, q.volume⟩) ∨
      ∃ o ∈ (s.accounts a).orders.rows, o.clientOrderId = c ∧ o.status = .resting ∧
        m.slaveOrderId = some o.id := by
  have hb := (consistent_of_run h).booked a
  have hstage : ∀ c m, c.account = some a → s.service.mappings.find c = some m → Stage (s.accounts a) c m := by
    intro c m hc hm
    have hst := hb.row c m hc hm
    rwa [hr, settle_nil] at hst
  refine ⟨fun q hq hv => ?_, fun o ho hs => ?_, fun c m hc hm hact => ?_⟩
  · obtain ⟨hc, hrow⟩ := hb.positions q hq
    obtain ⟨m, hm⟩ := isSome_iff_exists.1 hrow
    obtain ⟨-, hheld, hact⟩ := (hstage _ m hc hm).of_volume hq rfl hv
    exact ⟨m, hm, hact, hheld⟩
  · obtain ⟨⟨p, hc⟩, -, hrow⟩ := hb.orders o ho
    obtain ⟨m, hm⟩ := isSome_iff_exists.1 hrow
    obtain ⟨-, hact, hω, hh⟩ := (hstage _ m (by rw [hc]; rfl) hm).of_resting ho rfl hs
    exact ⟨m, hm, hact, hω, hh⟩
  · cases hstage c m hc hm with
    | waiting hu hx => cases hu.1.symm.trans hact
    | resting o ho hs hω hh => exact .inr ⟨o, ho.mem, ho.copy, ho.status, hω⟩
    | cancelled o ho hs hω hh => cases hs.symm.trans hact
    | held q hq hh hs hω =>
      refine .inl ⟨q, hq.mem, hq.copy, Nat.pos_of_ne_zero fun h0 => ?_, hh⟩
      rw [if_pos h0] at hs
      cases hs.symm.trans hact

/-- The master opens position 5 and places order 8; both requests are executed and their reports handled. -/
theorem books_exact_when_delivered_sample : ∃ s, Runs sampleFleet (fun _ _ => True) Sys.init s ∧
    (s.accounts 1).reports = [] ∧ (s.accounts 1).positions.rows = [⟨20, .cm 5 1, 100⟩] ∧
    ∃ m, s.service.mappings.find (.cm 5 1) = some m ∧ m.status = .active ∧ m.held = some ⟨20, 100⟩ := by
  refine Machine.exists_run_and₂ [sampleOpen 5 100 .unset, samplePlace 8 50 .unset, .execute 1 20, .execute 1 21,
    .deliver 1, .deliver 1] Sys.init fun s hrun hr hp => ?_
  have hmem : ⟨20, .cm 5 1, 100⟩ ∈ (s.accounts 1).positions.rows := by
    rw [hp]
    exact mem_cons_self
  exact (books_exact_when_delivered hrun hr).1 _ hmem (by decide)

end Runs

end Copier
