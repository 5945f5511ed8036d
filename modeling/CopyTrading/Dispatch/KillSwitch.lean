import CopyTrading.Dispatch.Desk

/-!
# Dispatch.KillSwitch — what the copy gates of an org stop

The gates are read once for a batch.  What was handed over is not checked again: a request that waits for
a token, a connection or a retry, and a command that waits for a poll, go out whatever the gates say by
then.  `Desk.Empty` is the state of affairs in which switching copying off stops everything.
-/

namespace Copier.Dispatch

open Mt5 List

namespace Desk

variable (d : Desk)

/-- A copy of `o` that has not gone out. -/
def waiting (o : ℕ) (r : CommandRow) : Bool := r.copy && r.orgId = o && r.isOpen

/-- Nothing of org `o` is under way. -/
structure Empty (o : ℕ) : Prop where
  batch : ∀ b ∈ d.batch, b.org = o → b.gates.copies = false
  jobs : ∀ j ∈ d.reactor.outstanding, j.org ≠ some o
  rows : ∀ r ∈ d.outbox, waiting o r = false

instance (o : ℕ) : Decidable (d.Empty o) :=
  decidable_of_iff ((∀ b ∈ d.batch, b.org = o → b.gates.copies = false) ∧
      (∀ j ∈ d.reactor.outstanding, j.org ≠ some o) ∧ ∀ r ∈ d.outbox, waiting o r = false)
    ⟨fun h => ⟨h.1, h.2.1, h.2.2⟩, fun h => ⟨h.1, h.2, h.3⟩⟩

/-- Copying is switched off for an org while nothing of it is under way. -/
def Action.Quiet (a : Action) (d : Desk) : Prop :=
  match a with
  | .commit org gates => (d.orgs org).copies = true → gates.copies = false → d.Empty org
  | _ => True

instance (a : Action) (d : Desk) : Decidable (a.Quiet d) := by
  unfold Action.Quiet
  split <;> infer_instance

/-- The copy requests of `o` on the cTrader wire. -/
def sentFor (o : ℕ) : List Sent := d.reactor.wire.filter fun w => w.job.org = some o

/-- The copy commands of `o` that terminals were given. -/
def handedFor (o : ℕ) : List CommandRow := d.handed.filter fun r => r.copy && r.orgId = o

end Desk

/-! ### One action -/

section Step

variable {d d' : Desk} {o org target : ℕ} {i : SlaveIntent} {a : Desk.Action}

/-- The row that is queued for an intent is its org's. -/
theorem enqueueIntent_orgId {netting : Bool} {rows : List CommandRow} {id : ℕ} {now : ℚ}
    {symbol : String} {row : CommandRow}
    (h : enqueueIntent netting rows id org now symbol i = some row) : row.orgId = org := by
  cases enqueueIntent_cases h with
  | plain i payload hp | close i p x hopen => rfl

theorem Desk.Empty.setStatuses (h : d.Empty o) (statuses : Statuses) : (d.setStatuses statuses).Empty o :=
  ⟨h.batch, h.jobs, h.rows⟩

/-- A request of another org goes to the throttle or to an outbox. -/
theorem Desk.Empty.handleLiveSend (h : d.Empty o) (hne : org ≠ o) (hs : d.reactor.todo = []) :
    (d.handleLiveSend org target i).Empty o := by
  unfold Desk.handleLiveSend
  split
  · unfold Desk.enqueueForMt5
    split
    · exact h
    · split
      · exact h.setStatuses _
      · next row hrow =>
        refine ⟨h.batch, h.jobs, ?_⟩
        refine forall_mem_append.2 ⟨h.rows, forall_mem_singleton.2 ?_⟩
        simp [Desk.waiting, enqueueIntent_orgId hrow, hne]
  · refine ⟨h.batch, ?_, h.rows⟩
    intro j hj
    have he := sendWithRetries_entered (s := { d.reactor with nextJob := d.reactor.nextJob + 1 }) hs
      ⟨d.reactor.nextJob, i, target, some org, .shared, 0⟩
    rw [← Multiset.mem_coe, he.outstanding hs, Multiset.mem_add, Multiset.mem_singleton] at hj
    rcases hj with hj | rfl
    · exact h.jobs j hj
    · simpa using hne

theorem handleLiveSend_orgs : (d.handleLiveSend org target i).orgs = d.orgs := by
  unfold Desk.handleLiveSend
  split
  · unfold Desk.enqueueForMt5
    repeat' split
    all_goals rfl
  · rfl

theorem handleLiveSend_frame (d : Desk) (org target : ℕ) (i : SlaveIntent) (hs : d.reactor.todo = []) :
    (d.handleLiveSend org target i).reactor.wire = d.reactor.wire ∧
      (d.handleLiveSend org target i).handed = d.handed := by
  unfold Desk.handleLiveSend
  split
  · unfold Desk.enqueueForMt5
    repeat' split
    all_goals exact ⟨rfl, rfl⟩
  · exact ⟨(sendWithRetries_entered (s := { d.reactor with nextJob := d.reactor.nextJob + 1 }) hs _).wire,
      rfl⟩

theorem waiting_of_same {r r' : CommandRow} (h : SameCommand r r') (hw : Desk.waiting o r = false) :
    Desk.waiting o r' = false := by
  by_contra hr
  simp only [Desk.waiting, Bool.not_eq_false, Bool.and_eq_true, decide_eq_true_eq, h.copy,
    h.orgId] at hr
  simp [Desk.waiting, hr.1.1, hr.1.2, h.isOpen hr.2] at hw

/-- With copying off, nothing of the org is under way. -/
def Safe (d : Desk) : Prop := ∀ o, (d.orgs o).copies = false → d.Empty o

theorem Safe.fired (h : Safe d) (hq : a.Quiet d) (hf : Fired d a d') : Safe d' := by
  intro o hoff
  cases hf with
  | turn a r hc hr =>
    have he := h o hoff
    refine ⟨he.batch, ?_, he.rows⟩
    intro j hj
    rcases outstanding_of_fire hr hj with ⟨i, hi, horg⟩ | ⟨request, target, lane, rfl⟩
    · rw [← horg]
      exact he.jobs i hi
    · -- an operator's request carries no org
      cases horg : j.org with
      | none => simp
      | some x => simp [horg, Desk.isCopy] at hc
  | dispatch org intents =>
    have he := h o hoff
    refine ⟨?_, he.jobs, he.rows⟩
    intro b hb ho
    cases hb
    show (d.orgs org).copies = false
    rw [show org = o from ho]
    exact hoff
  | last target raised =>
    have he := h o hoff
    exact ⟨nofun, he.jobs, he.rows⟩
  | intent b i is target raised hb hs =>
    have hempty : (d.orgs o).copies = false →
        ({ d with batch := some { b with intents := is } } : Desk).Empty o := by
      intro hoff
      have he := h o hoff
      refine ⟨?_, he.jobs, he.rows⟩
      intro b' hb' ho
      cases hb'
      exact he.batch b hb ho
    rcases dispatchIntent_cases { d with batch := some { b with intents := is } } b.org target b.gates
      raised i with ⟨σ, heq⟩ | ⟨hg, σ, heq⟩
    · rw [heq] at hoff ⊢
      exact (hempty hoff).setStatuses σ
    · rw [heq] at hoff ⊢
      change ((Desk.handleLiveSend _ b.org target i).orgs o).copies = false at hoff
      rw [handleLiveSend_orgs] at hoff
      have hne : b.org ≠ o := by
        intro ho
        have hb := (h o hoff).batch b hb ho
        simp [hg] at hb
      exact ((hempty hoff).handleLiveSend hne hs).setStatuses σ
  | commit org gates =>
    simp only at hoff
    by_cases ho : o = org
    · subst ho
      rw [Function.update_self] at hoff
      have he : d.Empty o := by
        cases hon : (d.orgs o).copies with
        | true => exact hq hon hoff
        | false => exact h o hon
      exact ⟨he.batch, he.jobs, he.rows⟩
    · rw [Function.update_of_ne ho] at hoff
      have he := h o hoff
      exact ⟨he.batch, he.jobs, he.rows⟩
  | operate account org payload =>
    have he := h o hoff
    refine ⟨he.batch, he.jobs, ?_⟩
    refine forall_mem_append.2 ⟨he.rows, forall_mem_singleton.2 ?_⟩
    rfl
  | statuses a statuses => exact (h o hoff).setStatuses statuses
  | poll account online statuses =>
    have he := h o hoff
    refine ⟨he.batch, he.jobs, ?_⟩
    intro r hr
    obtain ⟨r₀, hr₀, hsame⟩ := mem_deliverable_rows hr
    exact waiting_of_same hsame (he.rows r₀ hr₀)
  | ack account id ok statuses =>
    have he := h o hoff
    refine ⟨he.batch, he.jobs, ?_⟩
    intro r hr
    obtain ⟨r₀, hr₀, rfl⟩ := mem_map.1 hr
    exact waiting_of_same (complete_same id ok r₀) (he.rows r₀ hr₀)

/-- With nothing of an org under way, no action sends or hands over a copy of it. -/
theorem Desk.Empty.silent (he : d.Empty o) (hf : Fired d a d') :
    d'.sentFor o = d.sentFor o ∧ d'.handedFor o = d.handedFor o := by
  cases hf with
  | turn a r hc hr =>
    refine ⟨?_, rfl⟩
    rcases wire_of_fire hr with hw | ⟨w, hw, hjob⟩
    · simp [Desk.sentFor, hw]
    · simp [Desk.sentFor, hw, he.jobs w.job hjob]
  | intent b i is target raised hb hs =>
    rcases dispatchIntent_cases { d with batch := some { b with intents := is } } b.org target b.gates
      raised i with ⟨σ, heq⟩ | ⟨-, σ, heq⟩
    · rw [heq]
      exact ⟨rfl, rfl⟩
    · have hframe := handleLiveSend_frame { d with batch := some { b with intents := is } } b.org target
        i hs
      rw [heq]
      exact ⟨congrArg (filter _) hframe.1, congrArg (filter _) hframe.2⟩
  | poll account online statuses =>
    refine ⟨rfl, ?_⟩
    simp only [Desk.handedFor, filter_append]
    have hnone : ((deliverable account d.reactor.now d.outbox).2.reverse.filter fun r =>
        r.copy && Decidable.decide (r.orgId = o)) = [] := by
      refine filter_eq_nil_iff.2 ?_
      intro r hr hco
      obtain ⟨-, hopen, r₀, hr₀, hsame⟩ := mem_deliverable_commands (mem_reverse.1 hr)
      have hw := waiting_of_same hsame (he.rows r₀ hr₀)
      simp only [Bool.and_eq_true, decide_eq_true_eq] at hco
      simp [Desk.waiting, hco.1, hco.2, hopen] at hw
    rw [hnone, nil_append]
  | dispatch org intents | last target raised | commit org gates
  | operate account org payload | ack account id ok statuses | statuses a statuses =>
    exact ⟨rfl, rfl⟩

end Step

/-! ### Whole runs -/

section Run

variable {targets : ℕ → Option (ℕ → Option String)} {netting : ℕ → Bool} {orgs : ℕ → Org} {d d' : Desk}
  {a : Desk.Action} {o : ℕ}

theorem Safe.init : Safe (Desk.init targets netting orgs) := by
  intro o _
  have hnone : State.init.outstanding = [] := rfl
  constructor <;> simp [Desk.init, hnone]

/-- **The switch stops copying**, in every run in which it is thrown while nothing of the org is under
way: as long as copying is off, no action writes a copy request of the org to the wire or hands one of
its copy commands to a terminal. -/
theorem switch_stops_copying
    (h : Machine.Run Desk.fire Desk.Action.Quiet (Desk.init targets netting orgs) d)
    (hoff : (d.orgs o).copies = false) (hf : Desk.fire a d = some d') :
    d'.sentFor o = d.sentFor o ∧ d'.handedFor o = d.handedFor o := by
  have hs : Safe d := h.invariant Safe.init fun _ _ _ hq hs hf => hs.fired hq (fire_fired hf)
  exact (hs o hoff).silent (fire_fired hf)

end Run

/-- Account 9 is a terminal. -/
def sampleTargets (account : ℕ) : Option (ℕ → Option String) :=
  if account = 9 then some fun _ => some "EURUSD" else none

/-- A copy for each of the accounts 7 and 9. -/
def sampleCopies : List SlaveIntent :=
  [.openMarket ⟨7, 1, 1, .buy, 100, .unset, "m1", "EURUSD", none⟩,
    .openMarket ⟨9, 1, 1, .buy, 100, .unset, "m1", "EURUSD", none⟩]

/-- Copying is switched off once both copies are out. -/
theorem switch_stops_copying_sample : ∃ d d',
    Machine.Run Desk.fire Desk.Action.Quiet (Desk.init sampleTargets (fun _ => false) fun _ => .live) d ∧
    Desk.fire (.poll 9 true) d = some d' ∧ (d.orgs 1).copies = false ∧ (d.sentFor 1).length = 1 ∧
    (d.handedFor 1).length = 1 ∧ d'.sentFor 1 = d.sentFor 1 ∧ d'.handedFor 1 = d.handedFor 1 := by
  obtain ⟨d, hr, hoff, hs, hh, hp⟩ : ∃ d,
      Machine.Run Desk.fire Desk.Action.Quiet (Desk.init sampleTargets (fun _ => false) fun _ => .live) d ∧
      (d.orgs 1).copies = false ∧ (d.sentFor 1).length = 1 ∧ (d.handedFor 1).length = 1 ∧
      (Desk.fire (.poll 9 true) d).isSome = true :=
    Machine.exists_run (Desk.sampleLink ++
        [.turn (.authAnswer 0 7), .dispatch 1 sampleCopies, .intent 1 .no, .turn (.run .none),
        .intent 1 .no, .intent 1 .no, .poll 9 true, .ack 9 0 true, .commit 1 ⟨false, false⟩])
      (Desk.init sampleTargets (fun _ => false) fun _ => .live) (by decide +kernel)
  obtain ⟨d', hd'⟩ := Option.isSome_iff_exists.1 hp
  exact ⟨d, d', hr, hd', hoff, hs, hh, switch_stops_copying hr hoff hd'⟩

/-- **What was handed over is not stopped**: one copy waits for its retry and one for the terminal's poll
when copying is switched off, and both go out. -/
theorem switch_misses_waiting : ∃ d d',
    Machine.Run Desk.fire (fun _ _ => True) (Desk.init sampleTargets (fun _ => false) fun _ => .live) d ∧
    Machine.Run Desk.fire (fun _ d => (d.orgs 1).copies = false) d d' ∧
    (d.orgs 1).copies = false ∧ d.sentFor 1 = [] ∧ d.handedFor 1 = [] ∧
    (d'.sentFor 1).length = 1 ∧ (d'.handedFor 1).length = 1 :=
  Machine.exists_run_pair (Desk.sampleLink ++
      [.dispatch 1 sampleCopies, .intent 1 .no, .turn (.run .none), .intent 1 .no, .intent 1 .no,
      .commit 1 ⟨false, false⟩])
    [.poll 9 true, .turn (.authAnswer 0 7), .turn (.advance 1), .turn (.retry 0), .turn (.run .none)]
    (Desk.init sampleTargets (fun _ => false) fun _ => .live) (by decide +kernel)

end Copier.Dispatch
