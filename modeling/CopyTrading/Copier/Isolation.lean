import CopyTrading.Copier.Execution

/-!
# Copier.Isolation — copies stay in their org, and slaves cause no trades

The mapping tables are read by master ids, which collide between orgs; what keeps a master event in its
org is that every intent goes to an enabled slave of the list it is decided for.  An event of any other
account never gets as far as a decision.
-/

namespace Copier

open List

/-! ### Decisions -/

section Decide

variable {slaves : List SlaveConfig} {i : SlaveIntent} {s : SlaveConfig}

/-- An intent for an enabled slave of the list. -/
def Aims (slaves : List SlaveConfig) (i : SlaveIntent) : Prop :=
  ∃ s ∈ slaves, s.enabled = true ∧ s.accountId = i.slaveAccountId

theorem mem_enabledSlaves : s ∈ enabledSlaves slaves ↔ s ∈ slaves ∧ s.enabled = true :=
  mem_filter

theorem byId_some {a : ℕ} (h : byId slaves a = some s) :
    s ∈ slaves ∧ s.enabled = true ∧ s.accountId = a := by
  have hmem := mem_of_find?_eq_some h
  have hid : s.accountId = a := by simpa using find?_some h
  obtain ⟨hs, he⟩ := mem_enabledSlaves.1 (mem_reverse.1 hmem)
  exact ⟨hs, he, hid⟩

theorem byId_isSome (hs : s ∈ slaves) (he : s.enabled = true) :
    (byId slaves s.accountId).isSome = true := by
  refine find?_isSome.2 ⟨s, ?_, by simp⟩
  exact mem_reverse.2 (mem_enabledSlaves.2 ⟨hs, he⟩)

theorem uncovered_aims {covered : List ℕ} {message : String} (h : i ∈ uncovered slaves covered message) :
    Aims slaves i := by
  obtain ⟨a, ha, rfl⟩ := mem_map.1 h
  obtain ⟨s, hs, rfl⟩ := mem_map.1 (mem_dedup.1 (mem_of_mem_filter ha))
  obtain ⟨hs, he⟩ := mem_enabledSlaves.1 hs
  exact ⟨s, hs, he, rfl⟩

section Entries

variable {ε : Type} (entries : List ε) (account : ε → ℕ) (act : SlaveConfig → ε → SlaveIntent)
  (message : String)

/-- What `decide` does with the mapping entries of an event: an intent for each entry of an enabled
slave, and an alert for each slave without one. -/
def overEntries (slaves : List SlaveConfig) : List SlaveIntent :=
  entries.filterMap (fun e => (byId slaves (account e)).map fun s => act s e) ++
    uncovered slaves (coveredBy slaves (entries.map account)) message

variable {entries account act message}

section

variable (hact : ∀ s e, s.accountId = account e → (act s e).slaveAccountId = account e)
include hact

/-- Entries of other accounts are skipped. -/
theorem overEntries_aims
    (h : i ∈ overEntries entries account act message slaves) : Aims slaves i := by
  rcases mem_append.1 h with h | h
  · obtain ⟨e, -, he⟩ := mem_filterMap.1 h
    obtain ⟨s, hs, rfl⟩ := Option.map_eq_some_iff.1 he
    obtain ⟨hmem, hen, hid⟩ := byId_some hs
    exact ⟨s, hmem, hen, hid.trans (hact s e hid).symm⟩
  · exact uncovered_aims h

/-- No slave is left without an intent. -/
theorem overEntries_covers
    {s : SlaveConfig} (hs : s ∈ slaves) (he : s.enabled = true) :
    ∃ i ∈ overEntries entries account act message slaves, i.slaveAccountId = s.accountId := by
  by_cases hc : s.accountId ∈ entries.map account
  · obtain ⟨e, hmem, hid⟩ := mem_map.1 hc
    obtain ⟨s', hs'⟩ := Option.isSome_iff_exists.1 (byId_isSome hs he)
    refine ⟨act s' e, mem_append_left _ (mem_filterMap.2 ⟨e, hmem, ?_⟩), ?_⟩
    · rw [hid, hs']
      rfl
    · rw [hact s' e ((byId_some hs').2.2.trans hid.symm), hid]
  · refine ⟨.alert ⟨s.accountId, message⟩, mem_append_right _ (mem_map.2 ⟨s.accountId, ?_, rfl⟩),
      rfl⟩
    rw [mem_filter, mem_dedup]
    refine ⟨mem_map_of_mem (mem_enabledSlaves.2 ⟨hs, he⟩), ?_⟩
    simp only [coveredBy, decide_eq_true_eq, mem_filter, not_and]
    intro hmem
    exact absurd hmem hc

end

end Entries

theorem mapSlaves_spec (slaves : List SlaveConfig) {act : SlaveConfig → SlaveIntent}
    (hact : ∀ s, (act s).slaveAccountId = s.accountId) :
    (∀ i ∈ (enabledSlaves slaves).map act, Aims slaves i) ∧
      ∀ s ∈ slaves, s.enabled = true → ∃ i ∈ (enabledSlaves slaves).map act, i.slaveAccountId = s.accountId := by
  constructor
  · intro i hi
    obtain ⟨s, hs, rfl⟩ := mem_map.1 hi
    obtain ⟨hs, he⟩ := mem_enabledSlaves.1 hs
    exact ⟨s, hs, he, (hact s).symm⟩
  · intro s hs he
    exact ⟨act s, mem_map_of_mem (mem_enabledSlaves.2 ⟨hs, he⟩), hact s⟩

/-- **Every intent goes to an enabled slave, and every enabled slave gets one**, a master's rejection
apart. -/
theorem decide_spec (e : MasterEvent) (mappings : MappingState) (slaves : List SlaveConfig) :
    (∀ i ∈ decide e mappings slaves, Aims slaves i) ∧
      ((∀ reason, e ≠ .rejected reason) → ∀ s ∈ slaves, s.enabled = true →
        ∃ i ∈ decide e mappings slaves, i.slaveAccountId = s.accountId) := by
  cases e with
  | rejected reason => exact ⟨forall_mem_nil _, fun h => absurd rfl (h reason)⟩
  | positionOpened e =>
    obtain ⟨ha, hc⟩ := mapSlaves_spec slaves (openFor_account e)
    exact ⟨ha, fun _ => hc⟩
  | pendingPlaced e =>
    obtain ⟨ha, hc⟩ := mapSlaves_spec slaves (placeFor_account e)
    exact ⟨ha, fun _ => hc⟩
  | positionClosed e =>
    have hact : ∀ s (x : PositionMappingEntry), s.accountId = x.slaveAccountId →
        (closeFor e s x).slaveAccountId = x.slaveAccountId := fun s x h => (closeFor_account e s x).trans h
    exact ⟨fun _ h => overEntries_aims hact h, fun _ _ hs he => overEntries_covers hact hs he⟩
  | positionSLTPAmended e =>
    have hact : ∀ (s : SlaveConfig) (x : PositionMappingEntry), s.accountId = x.slaveAccountId →
        (SlaveIntent.amendPositionSLTP ⟨x.slaveAccountId, x.slavePositionId, e.levels⟩).slaveAccountId =
          x.slaveAccountId := fun _ _ _ => rfl
    exact ⟨fun _ h => overEntries_aims hact h, fun _ _ hs he => overEntries_covers hact hs he⟩
  | pendingReplaced e =>
    have hact : ∀ s (x : OrderMappingEntry), s.accountId = x.slaveAccountId →
        (replaceFor e s x).slaveAccountId = x.slaveAccountId := fun s x h => (replaceFor_account e s x).trans h
    exact ⟨fun _ h => overEntries_aims hact h, fun _ _ hs he => overEntries_covers hact hs he⟩
  | pendingCancelled o =>
    have hact : ∀ (s : SlaveConfig) (x : OrderMappingEntry), s.accountId = x.slaveAccountId →
        (SlaveIntent.cancelPending ⟨x.slaveAccountId, x.slaveOrderId⟩).slaveAccountId =
          x.slaveAccountId := fun _ _ _ => rfl
    exact ⟨fun _ h => overEntries_aims hact h, fun _ _ hs he => overEntries_covers hact hs he⟩
  | pendingFilled o p =>
    have hact : ∀ (s : SlaveConfig) (x : OrderMappingEntry), s.accountId = x.slaveAccountId →
        (SlaveIntent.linkPendingFill ⟨x.slaveAccountId, o, p⟩).slaveAccountId =
          x.slaveAccountId := fun _ _ _ => rfl
    exact ⟨fun _ h => overEntries_aims hact h, fun _ _ hs he => overEntries_covers hact hs he⟩

end Decide

/-! ### Events -/

section Events

variable {cfg : Config} {a : ℕ} {x : BrokerEvent} {st : Service}

/-- An enabled, unpaused slave account of `org`. -/
def AccountRow.Follows (org : ℕ) (row : AccountRow) : Prop :=
  row.role = .slave ∧ row.orgId = org ∧ row.enabled = true ∧ row.status ≠ .paused

/-- The enabled slaves of the routing are the rows that follow. -/
theorem mem_slavesByOrg {accounts : List AccountRow} {symbolLoader : ℕ → String → Option SymbolInfo}
    {aliasLoader : ℕ → String → Option String} {org n : ℕ} :
    (∃ s ∈ (buildRouting accounts symbolLoader aliasLoader).slavesByOrg org,
      s.enabled = true ∧ s.accountId = n) ↔ ∃ row ∈ accounts, row.Follows org ∧ row.accountId = n := by
  simp only [buildRouting, slaveRows, mem_map, mem_filter, Bool.and_eq_true,
    decide_eq_true_eq]
  constructor
  · rintro ⟨s, ⟨row, ⟨hrow, hrole, horg⟩, rfl⟩, hen, hid⟩
    simp only [slaveConfig, AccountRow.copies, Bool.and_eq_true, decide_eq_true_eq] at hen
    exact ⟨row, hrow, ⟨hrole, horg, hen.1, hen.2⟩, hid⟩
  · rintro ⟨row, hrow, ⟨hrole, horg, hen, hst⟩, hid⟩
    refine ⟨slaveConfig symbolLoader aliasLoader row, ⟨row, ⟨hrow, hrole, horg⟩, rfl⟩, ?_, hid⟩
    simp [slaveConfig, AccountRow.copies, hen, hst]

/-- Dispatched in an org, each intent is sent once at most, and only if the org's gates let it through. -/
theorem dispatching_gated (cfg : Config) (org : ℕ) (d : Option (ℕ × MasterEvent))
    (r : Service × List SlaveIntent) :
    (Handled.dispatching org (cfg.orgs org) d r).requests.Sublist
        ((Handled.dispatching org (cfg.orgs org) d r).dispatched.map Prod.snd) ∧
      ∀ i ∈ (Handled.dispatching org (cfg.orgs org) d r).requests, ∃ o,
        (o, i) ∈ (Handled.dispatching org (cfg.orgs org) d r).dispatched ∧ (cfg.orgs o).copies = true := by
  constructor
  · rw [Handled.dispatching, map_map]
    exact (map_id r.2).symm ▸ (dispatch_sent _ _ _).1
  · intro i hi
    obtain ⟨hmem, hc⟩ := dispatch_gated hi
    exact ⟨org, mem_map_of_mem hmem, hc⟩

/-- The requests are what was given to the dispatcher, each once, as far as the org's gates let it through. -/
theorem handleExecution_gated (cfg : Config) (a : ℕ) (x : BrokerEvent) (st : Service) :
    (cfg.handleExecution a x st).requests.Sublist ((cfg.handleExecution a x st).dispatched.map Prod.snd) ∧
      ∀ i ∈ (cfg.handleExecution a x st).requests, ∃ org,
        (org, i) ∈ (cfg.handleExecution a x st).dispatched ∧ (cfg.orgs org).copies = true := by
  have hout := handleExecution_outcome cfg a x st
  generalize cfg.handleExecution a x st = r at hout ⊢
  cases hout with
  | ignored st' => exact ⟨.slnil, by simp [Handled.ignored]⟩
  | decided org e horg hm | reported org r horg hr => exact dispatching_gated cfg org _ _

/-- A decision is the master's: its intents carry the master's org and go to the org's enabled slaves,
and none of those is left out. -/
theorem handleExecution_decided {org : ℕ} {e : MasterEvent}
    (h : (cfg.handleExecution a x st).decided = some (org, e)) :
    cfg.routing.orgByAccount a = some org ∧ cfg.routing.masterByOrg org = some a ∧
      (∀ y ∈ (cfg.handleExecution a x st).dispatched, y.1 = org ∧
        Aims (cfg.routing.slavesByOrg org) y.2) ∧
      ((∀ reason, e ≠ .rejected reason) → ∀ s ∈ cfg.routing.slavesByOrg org, s.enabled = true →
        ∃ y ∈ (cfg.handleExecution a x st).dispatched, y.2.slaveAccountId = s.accountId) := by
  have hout := handleExecution_outcome cfg a x st
  generalize cfg.handleExecution a x st = r at h hout ⊢
  cases hout with
  | ignored st' | reported org r horg hr => cases h
  | decided org e horg hm =>
    cases Option.some.inj h
    obtain ⟨haims, hcovers⟩ := decide_spec e st.mappingState (cfg.routing.slavesByOrg org)
    refine ⟨horg, hm, ?_, ?_⟩
    · intro y hy
      obtain ⟨i, hi, rfl⟩ := mem_map.1 hy
      exact ⟨rfl, haims i hi⟩
    · intro hrej s hs hen
      obtain ⟨i, hi, hid⟩ := hcovers hrej s hs hen
      exact ⟨(org, i), mem_map_of_mem hi, hid⟩

theorem report_filled {fill : SlaveFill} (h : x.report = some (.filled fill)) :
    fill.positionId = x.event.deal.positionId := by
  unfold BrokerEvent.report at h
  split_ifs at h
  · cases Option.some.inj h
    rfl
  · split at h <;> cases h

/-- An account that is not its org's master: no decision, and at most the amend of the position that its
own event filled. -/
theorem handleExecution_slave (x : BrokerEvent) (st : Service) (h : ¬ cfg.IsMaster a) :
    (cfg.handleExecution a x st).decided = none ∧ (cfg.handleExecution a x st).dispatched.length ≤ 1 ∧
      ∀ y ∈ (cfg.handleExecution a x st).dispatched,
        ∃ levels, y.2 = .amendPositionSLTP ⟨a, x.event.deal.positionId, levels⟩ := by
  have hout := handleExecution_outcome cfg a x st
  generalize cfg.handleExecution a x st = r at hout ⊢
  cases hout with
  | ignored st' => exact ⟨rfl, Nat.zero_le _, forall_mem_nil _⟩
  | decided org e horg hm => exact absurd ⟨org, horg, hm⟩ h
  | reported org r horg hr =>
    obtain ⟨hlen, hamend⟩ := bookReport_amend st a r
    refine ⟨rfl, (length_map ..).trans_le hlen, ?_⟩
    intro y hy
    obtain ⟨i, hi, rfl⟩ := mem_map.1 hy
    obtain ⟨fill, levels, rfl, rfl⟩ := hamend i hi
    exact ⟨levels, by rw [report_filled hr]⟩

/-- The accounts on which a chain of events that starts on `a` can cause further ones: each request
leads to events of the account it is sent to, whatever the service holds by then. -/
inductive Caused (cfg : Config) (a : ℕ) : ℕ → Prop where
  | start : Caused cfg a a
  | step {b : ℕ} (x : BrokerEvent) (st : Service) (i : SlaveIntent) : Caused cfg a b →
    i ∈ (cfg.handleExecution b x st).requests → Caused cfg a i.slaveAccountId

/-- Such a chain does not leave a slave's account. -/
theorem Caused.eq_start {b : ℕ} (h : Caused cfg a b) (hm : ¬ cfg.IsMaster a) : b = a := by
  induction h with
  | start => rfl
  | step x st i _ hi ih =>
    subst ih
    obtain ⟨org, hd, -⟩ := (handleExecution_gated cfg _ x st).2 i hi
    obtain ⟨levels, rfl⟩ := (handleExecution_slave x st hm).2.2 _ hd
    rfl

end Events

section Main

variable (accounts : List AccountRow) (symbolLoader : ℕ → String → Option SymbolInfo)
  (aliasLoader : ℕ → String → Option String) (masterSymbolsByOrg : ℕ → ℕ → Option MasterSymbol)
  (orgs : ℕ → Org)

/-- Two orgs: account 1 is the master of org 7 and account 2 follows it, account 3 is paused; account 4 is
the master of org 8, and account 5 follows that one. -/
def sampleAccounts : List AccountRow :=
  [⟨1, 7, .master, true, unitMultiplier, .ok, .ctrader⟩, ⟨2, 7, .slave, true, unitMultiplier, .ok, .ctrader⟩,
    ⟨3, 7, .slave, true, unitMultiplier, .paused, .ctrader⟩, ⟨4, 8, .master, true, unitMultiplier, .ok, .ctrader⟩,
    ⟨5, 8, .slave, true, unitMultiplier, .ok, .ctrader⟩]

def sampleConfig : Config :=
  ⟨buildRouting sampleAccounts (fun _ _ => some ⟨7, 100, 1⟩) (fun _ _ => none),
    fun _ _ => some ⟨"EURUSD", 100⟩, fun _ => .live⟩

/-- Accounts 2 and 5 hold copies of the two masters' positions of the same id, whose stop is remembered. -/
def sampleCollision : Service :=
  ⟨⟨[⟨.cm 50 2, 2, some 50, none, none, some ⟨20, 100⟩, .active⟩,
      ⟨.cm 50 5, 5, some 50, none, none, some ⟨21, 100⟩, .active⟩], by decide⟩, [(50, ⟨some 1, none⟩)]⟩

/-- A fill of 100, in the position with this id. -/
def sampleDeal (position : ℕ) (closed : Option ℕ) (c : Option ClientOrderId) : BrokerEvent :=
  ⟨⟨.orderFilled, "", ⟨8, .market, 1, .sell, 100, 0, 0, 0, 0, none⟩, ⟨position, 0, none, none, none⟩,
    ⟨position, 100, closed, none⟩⟩, c⟩

end Main

end Copier
