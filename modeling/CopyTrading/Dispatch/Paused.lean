import CopyTrading.Dispatch.Desk

/-!
# Dispatch.Paused — a paused slave and the writers of its status

Clearing and the offline check leave a paused account alone; a send that fails for good, an exception, a
terminal's rejection and a refused authorization write `degraded` over whatever is there, and the routing
counts a degraded account as enabled.
-/

namespace Copier.Dispatch

open Mt5 State

/-- The attempt ends with `set_account_status(…, 'degraded', …)`. -/
def Verdict.fails (f : Faults) (j : Job) : Verdict → Bool
  | .written _ _ => f.bookkeepingFails
  | .notAttempted => Decidable.decide (3 ≤ j.attempt)
  | .ambiguous => true
  | .pending _ => false

namespace Desk

/-- `load_accounts`: the rows with their status. -/
def loadAccounts (d : Desk) (rows : List AccountRow) : List AccountRow :=
  rows.map fun a => { a with status := d.reactor.statuses a.accountId }

/-- An operator resumes account `x`. -/
def Action.resumes (x : ℕ) : Action → Bool
  | .resume y => y = x
  | _ => false

/-- Nothing fails for good on account `x`, and nobody resumes it. -/
def Action.Spares (x : ℕ) (a : Action) (d : Desk) : Prop :=
  match a with
  | .turn (.run f) => ∀ t ∈ d.reactor.todo.head?, t.job.account = x →
      (d.reactor.verdict f t).fails f t.job = false
  | .intent _ raised => ∀ b ∈ d.batch, ∀ i ∈ b.intents.head?, i.slaveAccountId = x → raised = .no
  | .ack y _ ok => y = x → ok = true
  | .authorizeOne y ok => y = x → ok = true
  | .resume y => y ≠ x
  | _ => True

instance (x : ℕ) (a : Action) (d : Desk) : Decidable (a.Spares x d) := by
  unfold Action.Spares
  split <;> infer_instance

end Desk

/-! ### The reactor -/

section Reactor

variable {s s' : State} {x : ℕ} {j : Job} {f : Faults} {v : Verdict}

theorem settle_paused (hp : s.statuses x = .paused) (hv : j.account = x → v.fails f j = false) :
    (s.settle f j v).statuses x = .paused := by
  have hne : v.fails f j = true → j.account ≠ x := by
    intro hf hx
    simp [hv hx] at hf
  cases v with
  | written client conn =>
    rw [State.settle, onSendSuccess]
    by_cases hb : f.bookkeepingFails
    · rw [if_pos hb]
      exact setAccountStatus_paused hp (hne hb)
    · rw [if_neg hb]
      exact clearDegraded_paused hp
  | notAttempted =>
    rw [State.settle, onSendFailure]
    by_cases ha : j.attempt < 3
    · rw [if_pos (by simp [ha])]
      exact hp
    · rw [if_neg (by simp [ha])]
      exact setAccountStatus_paused hp (hne (by simp [Verdict.fails]; omega))
  | ambiguous => exact setAccountStatus_paused hp (hne rfl)
  | pending client => exact hp

theorem sendWithRetries_statuses : (s.sendWithRetries j).statuses = s.statuses := by
  unfold sendWithRetries
  simp only
  split_ifs <;> rfl

/-- The start of a turn writes no status. -/
theorem start_statuses {a : Action} (h : s.start a = some s') : s'.statuses = s.statuses := by
  cases a with
  | run f => cases h
  | dispatch request target org lane =>
    cases h
    rw [sendWithRetries_statuses]
  | disconnect c =>
    simp only [start] at h
    split_ifs at h <;> (obtain rfl := Option.some.inj h; rfl)
  | drain lane | timeout i =>
    simp only [start] at h
    split at h
    · split_ifs at h
      cases h
      rfl
    · cases h
  | retry i =>
    simp only [start] at h
    split at h
    · split_ifs at h
      cases h
      rw [sendWithRetries_statuses]
    · cases h
  | authAnswer c y =>
    simp only [start] at h
    split at h
    · cases h
      rfl
    · cases h
  | advance dt | connect c | connectFails c =>
    simp only [start] at h
    split_ifs at h
    cases h
    rfl
  | stop c | becomeReady c | authorize c y | deauthorize c y | assign y c =>
    cases h
    rfl

theorem fire_paused {a : Action} (hp : s.statuses x = .paused) (hf : State.fire a s = some s')
    (hv : ∀ f, a = .run f → ∀ t ∈ s.todo.head?, t.job.account = x →
      (s.verdict f t).fails f t.job = false) : s'.statuses x = .paused := by
  rcases fire_cases hf with ⟨f, t, ts, rfl, hs, -⟩ | ⟨-, hst⟩
  · rw [fire_run hs] at hf
    cases hf
    refine settle_paused ?_ (hv f rfl t (by simp [hs]))
    exact hp
  · rw [start_statuses hst]
    exact hp

end Reactor

/-! ### One action -/

section Step

variable {d d' : Desk} {x org target : ℕ} {i : SlaveIntent} {a : Desk.Action}

/-- Every intent that reaches the outbox has a command. -/
theorem enqueueIntent_isSome {netting : Bool} {rows : List CommandRow} {id : ℕ} {now : ℚ}
    {symbol : String} (h : (commandForIntent symbol i).isSome = true) :
    (enqueueIntent netting rows id org now symbol i).isSome = true := by
  unfold enqueueIntent
  cases i with
  | closePosition c =>
    simp only
    split_ifs <;> simp [h]
  | _ => simpa using h

section

variable (hp : d.reactor.statuses x = .paused)
include hp

theorem handleLiveSend_paused
    (hi : ∀ symbol, (commandForIntent symbol i).isSome = true) :
    (d.handleLiveSend org target i).reactor.statuses x = .paused := by
  unfold Desk.handleLiveSend
  split
  · unfold Desk.enqueueForMt5
    split
    · exact hp
    · next symbol hsymbol =>
      split
      · next hrow =>
        have hsome : (enqueueIntent (d.netting i.slaveAccountId) d.outbox d.outbox.length org
          d.reactor.now symbol i).isSome = true := enqueueIntent_isSome (hi symbol)
        simp [hrow] at hsome
      · exact hp
  · rw [sendWithRetries_statuses]
    exact hp

theorem processIntent_paused (gates : Org) :
    (d.processIntent org target gates i).reactor.statuses x = .paused := by
  cases i with
  | alert i | linkPendingFill i => exact hp
  | _ =>
    simp only [Desk.processIntent]
    split_ifs
    · exact hp
    · exact hp
    · exact handleLiveSend_paused hp fun _ => rfl

theorem dispatchIntent_paused {gates : Org} {raised : Raised}
    (hr : i.slaveAccountId = x → raised = .no) :
    (d.dispatchIntent org target gates raised i).reactor.statuses x = .paused := by
  cases raised with
  | no => exact processIntent_paused hp gates
  | before => exact setAccountStatus_paused hp fun hx => nomatch hr hx
  | after => exact setAccountStatus_paused (processIntent_paused hp gates) fun hx => nomatch hr hx

theorem settleAck_paused {y id : ℕ} {ok : Bool}
    (hok : y = x → ok = true) : (d.settleAck y id ok).reactor.statuses x = .paused := by
  unfold Desk.settleAck
  split_ifs with hany h
  · exact clearDegraded_paused hp
  · exact setAccountStatus_paused hp fun hx => h (hok hx)
  · exact hp

end

theorem start_paused (hs : a.Spares x d) (h : d.start a = some d')
    (hp : d.reactor.statuses x = .paused) : d'.reactor.statuses x = .paused := by
  cases a with
  | turn a | intent target raised | commit org gates => cases h
  | dispatch org intents | operate account org payload =>
    cases h
    exact hp
  | hello account =>
    cases h
    exact clearDegraded_paused hp
  | poll account online =>
    cases h
    cases online with
    | true => exact hp
    | false => exact clearDegraded_paused hp
  | ack account id ok =>
    cases h
    exact settleAck_paused hp hs
  | checkOffline silent =>
    cases h
    show (if x ∈ silent ∧ d.reactor.statuses x ≠ .paused then _ else d.reactor.statuses x) = _
    rw [if_neg fun hx => hx.2 hp, hp]
  | authorizeOne account ok =>
    cases h
    cases ok with
    | true => exact clearDegraded_paused hp
    | false => exact setAccountStatus_paused hp fun hx => nomatch hs hx
  | pause account =>
    cases h
    by_cases hx : account = x
    · subst hx
      exact Function.update_self ..
    · exact setAccountStatus_paused hp hx
  | resume account =>
    cases h
    exact setAccountStatus_paused hp hs

/-- **A step that spares a paused account leaves it paused.** -/
theorem spares_paused (hs : a.Spares x d) (hf : Desk.fire a d = some d')
    (hp : d.reactor.statuses x = .paused) : d'.reactor.statuses x = .paused := by
  cases a with
  | turn a =>
    simp only [Desk.fire] at hf
    split_ifs at hf
    obtain ⟨r, hr, rfl⟩ := Option.map_eq_some_iff.1 hf
    refine fire_paused hp hr ?_
    rintro f rfl
    exact hs
  | intent target raised =>
    simp only [Desk.fire] at hf
    split_ifs at hf
    split at hf
    · cases hf
    · cases hf
      exact hp
    · next org gates i is hb =>
      cases hf
      refine dispatchIntent_paused ?_ (hs _ hb i rfl)
      exact hp
  | commit org gates =>
    cases hf
    exact hp
  | _ =>
    simp only [Desk.fire] at hf
    split_ifs at hf
    exact start_paused hs hf hp

end Step

/-! ### Whole runs -/

section Run

variable {d d' : Desk} {x : ℕ} {rows : List AccountRow}
  {symbolLoader : ℕ → String → Option SymbolInfo} {aliasLoader : ℕ → String → Option String}

/-- The routing leaves out an account that is paused. -/
theorem slavesByOrg_paused (hp : d.reactor.statuses x = .paused) {org : ℕ} {c : SlaveConfig}
    (hc : c ∈ (buildRouting (d.loadAccounts rows) symbolLoader aliasLoader).slavesByOrg org)
    (hx : c.accountId = x) : c.enabled = false := by
  obtain ⟨a, ha, rfl⟩ := List.mem_map.1 hc
  obtain ⟨a₀, -, rfl⟩ := List.mem_map.1 (List.mem_of_mem_filter ha)
  have hx : a₀.accountId = x := hx
  simp [slaveConfig, AccountRow.copies, hx, hp]

/-- **A paused slave stays out** until it is resumed, in every run in which nothing fails for good on it
meanwhile: whatever else is sent, reported or checked, the routing does not count it as enabled. -/
theorem paused_stays_out {d₀ : Desk} (hpause : Desk.fire (.pause x) d₀ = some d)
    (h : Machine.Run Desk.fire (Desk.Action.Spares x) d d') {org : ℕ} {c : SlaveConfig}
    (hc : c ∈ (buildRouting (d'.loadAccounts rows) symbolLoader aliasLoader).slavesByOrg org)
    (hx : c.accountId = x) : c.enabled = false := by
  have hp : d.reactor.statuses x = .paused := by
    simp only [Desk.fire] at hpause
    split_ifs at hpause
    cases hpause
    exact Function.update_self ..
  have hp' : d'.reactor.statuses x = .paused :=
    h.invariant (P := fun d => d.reactor.statuses x = .paused) hp fun _ _ _ hs hp hf =>
      spares_paused hs hf hp
  exact slavesByOrg_paused hp' hc hx

end Run

/-- Account 7 is a slave of org 1. -/
def sampleRows : List AccountRow := [⟨7, 1, .slave, true, unitMultiplier, .ok, .ctrader⟩]

/-- No symbols and no aliases. -/
def sampleRouting (d : Desk) : OrgRouting :=
  buildRouting (d.loadAccounts sampleRows) (fun _ _ => none) fun _ _ => none

/-- A desk without terminals that copies. -/
def sampleDesk : Desk := Desk.init (fun _ => none) (fun _ => false) fun _ => .live

/-- A copy of a master position on account 7. -/
def sampleCopy : SlaveIntent := .openMarket ⟨7, 1, 1, .buy, 100, .unset, "m1", "EURUSD", none⟩

/-- A paused account on which a request is sent and a check of silent terminals finds nothing. -/
theorem paused_stays_out_sample : ∃ d d' c, Desk.fire (.pause 7) sampleDesk = some d ∧
    Machine.Run Desk.fire (Desk.Action.Spares 7) d d' ∧ c ∈ (sampleRouting d').slavesByOrg 1 ∧
    c.accountId = 7 ∧ (d'.reactor.wire.map fun w => w.job.account) = [7] ∧ c.enabled = false := by
  have hd : Desk.fire (.pause 7) sampleDesk =
    some (sampleDesk.setStatuses (setAccountStatus (fun _ => .ok) 7 .paused)) := rfl
  obtain ⟨d', hr, hw, hc⟩ : ∃ d', Machine.Run Desk.fire (Desk.Action.Spares 7)
      (sampleDesk.setStatuses (setAccountStatus (fun _ => .ok) 7 .paused)) d' ∧
      (d'.reactor.wire.map fun w => w.job.account) = [7] ∧
      ((sampleRouting d').slavesByOrg 1).map SlaveConfig.accountId = [7] :=
    Machine.exists_run (Desk.sampleLink ++
        [.turn (.authAnswer 0 7), .dispatch 1 [sampleCopy], .intent 1 .no, .turn (.run .none),
        .intent 1 .no, .checkOffline [7], .hello 7])
      (sampleDesk.setStatuses (setAccountStatus (fun _ => .ok) 7 .paused)) (by decide +kernel)
  obtain ⟨c, hmem, hx⟩ := List.mem_map.1 (hc ▸ List.mem_singleton_self 7)
  exact ⟨_, d', c, hd, hr, hmem, hx, hw, paused_stays_out hd hr hmem hx⟩

/-- **A send that was under way resumes the account**: the copy's retries fail for the last time after the
operator has paused account 7; its status is `degraded` then, and the routing counts it as enabled. -/
theorem paused_is_overwritten : ∃ d d', Machine.Run Desk.fire (fun _ _ => True) sampleDesk d ∧
    Machine.Run Desk.fire (fun a _ => a.resumes 7 = false) d d' ∧ d.reactor.statuses 7 = .paused ∧
    ((sampleRouting d').slavesByOrg 1).map (fun c => (c.accountId, c.enabled)) = [(7, true)] :=
  Machine.exists_run_pair (Desk.sampleLink ++
      [.dispatch 1 [sampleCopy], .intent 1 .no, .turn (.run .none), .intent 1 .no, .pause 7])
    [.turn (.advance 1), .turn (.retry 0), .turn (.run .none), .turn (.advance 2), .turn (.retry 0),
      .turn (.run .none), .turn (.advance 4), .turn (.retry 0), .turn (.run .none)]
    sampleDesk (by decide +kernel)

end Copier.Dispatch
