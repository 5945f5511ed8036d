import CopyTrading.Dispatch.Desk
import CopyTrading.Flatten.Account

/-!
# Flatten.Terminal — the kill switch on an MT5 account

The lane's `flatten` has no broker to ask: it reads the terminal's last report from the registry, queues a close
for each position and a cancel for each order, and reads the registry again when the round has settled.  Between
two readings any number of reports arrives, or none while the terminal is offline, and the commands go their own
way.
-/

namespace Copier.Flatten

open Mt5 Dispatch

/-- The terminal's book is empty. -/
def isFlat (r : SyncReport) : Prop := r.positions = [] ∧ r.orders = []

instance (r : SyncReport) : Decidable (isFlat r) := inferInstanceAs (Decidable (_ ∧ _))

/-- A flatten waits for a round to settle, or has ended with a summary or an exception. -/
inductive Phase where
  | settling (rounds : ℕ) (wake : ℚ) (firstPositions firstOrders : List ℕ)
  | ended (result : Except String Summary)

/-- The process with one flatten. -/
structure Terminal where
  desk : Dispatch.Desk
  /-- `MT5Registry.report`: the last report of each account. -/
  report : ℕ → Option SyncReport
  account : ℕ
  org : ℕ
  phase : Phase
  /-- The account's reports since the flatten began. -/
  received : List SyncReport

namespace Terminal

variable (t : Terminal) {r : SyncReport} {rounds : ℕ} {first : Option (List ℕ × List ℕ)}

/-- `enqueue(account_id, org_id, kind, payload, None)`. -/
def enqueue (account org : ℕ) (d : Dispatch.Desk) (payload : Payload) : Dispatch.Desk :=
  { d with outbox := d.outbox ++ [queuedRow d.outbox.length account org d.reactor.now payload none false false] }

/-- The positions with an open `close` command. -/
def closing (account : ℕ) (rows : List CommandRow) : List ℕ :=
  rows.filterMap fun r =>
    match r.payload with
    | .closePosition p _ => if r.accountId = account ∧ r.isOpen then some p else none
    | _ => none

/-- The orders with an open `cancel_pending` command. -/
def cancelling (account : ℕ) (rows : List CommandRow) : List ℕ :=
  rows.filterMap fun r =>
    match r.payload with
    | .cancelPending o => if r.accountId = account ∧ r.isOpen then some o else none
    | _ => none

/-- The commands of a round; a volume of 0 closes all of a position. -/
def commands (account : ℕ) (rows : List CommandRow) (r : SyncReport) : List Payload :=
  ((r.positions.filter fun p => p.ticket ∉ closing account rows).map fun p => .closePosition p.ticket 0) ++
    (r.orders.filter fun o => o.ticket ∉ cancelling account rows).map fun o => .cancelPending o.ticket

/-- The summary from a report. -/
def summary (firstPositions firstOrders : List ℕ) (r : SyncReport) (rounds : ℕ) : Summary :=
  .measured t.account firstPositions firstOrders (r.positions.map ReportPosition.ticket)
    (r.orders.map ReportOrder.ticket)
    rounds

/-- The loop of `flatten` to its next wait or its end, after some rounds. -/
def proceed (rounds : ℕ) (first : Option (List ℕ × List ℕ)) : Terminal :=
  match t.report t.account with
  | none => { t with phase := .ended (.error "'NoneType' object has no attribute 'positions'") }
  | some r =>
    let firstPositions := (first.map Prod.fst).getD (r.positions.map ReportPosition.ticket)
    let firstOrders := (first.map Prod.snd).getD (r.orders.map ReportOrder.ticket)
    if rounds = flattenRounds ∨ isFlat r then
      { t with phase := .ended (.ok (t.summary firstPositions firstOrders r rounds)) }
    else
      { t with
        desk := (commands t.account t.desk.outbox r).foldl (enqueue t.account t.org) t.desk
        phase := .settling (rounds + 1) (t.desk.reactor.now + flattenSettle * 2 ^ rounds)
          firstPositions firstOrders }

/-- `flatten` to its first wait or its end; `org` is `_org_for_account`. -/
def flatten (desk : Dispatch.Desk) (report : ℕ → Option SyncReport) (account : ℕ) : Option ℕ →
    Except String Terminal
  | none => .error s!"account {account} not found"
  | some org =>
    if report account = none then
      .error s!"MT5 account {account} has not reported yet: is the terminal connected?"
    else .ok (proceed ⟨desk, report, account, org, .settling 0 desk.reactor.now [] [], []⟩ 0 none)

/-- What happens next to the flatten. -/
inductive Action where
  /-- Anything else in the process: commands are queued, collected and acknowledged, time passes. -/
  | desk (a : Dispatch.Desk.Action)
  /-- `update_from_sync`. -/
  | report (account : ℕ) (r : SyncReport)
  /-- The round has settled. -/
  | settled

def fire (a : Action) (t : Terminal) : Option Terminal :=
  match a with
  | .desk a => (Dispatch.Desk.fire a t.desk).map fun d => { t with desk := d }
  | .report account r =>
    some { t with
      report := Function.update t.report account (some r)
      received := if account = t.account then t.received ++ [r] else t.received }
  | .settled =>
    match t.phase with
    | .settling rounds wake firstPositions firstOrders =>
      if wake ≤ t.desk.reactor.now then some (t.proceed rounds (some (firstPositions, firstOrders))) else none
    | .ended _ => none

/-- The flatten has ended and reports no error. -/
def succeeded (t : Terminal) : Bool :=
  match t.phase with
  | .ended (.ok s) => s.error.isNone
  | _ => false

/-- A success is backed by a report since the flatten began. -/
def Verified (t : Terminal) : Prop := t.succeeded = true → ∃ r ∈ t.received, isFlat r

/-! ### A book that was not empty -/

/-- The registry's report is new, or it shows something. -/
def Fresh (t : Terminal) : Prop := ∀ r, t.report t.account = some r → r ∈ t.received ∨ ¬ isFlat r

variable {t}

theorem summary_error {firstPositions firstOrders : List ℕ} :
    (t.summary firstPositions firstOrders r rounds).error = none ↔ isFlat r := by
  unfold summary Summary.measured
  rw [stillOpen_eq_none, List.map_eq_nil_iff, List.map_eq_nil_iff]
  rfl

/-- What a part of the loop leaves alone. -/
theorem proceed_frame (rounds : ℕ) (first : Option (List ℕ × List ℕ)) :
    (t.proceed rounds first).report = t.report ∧ (t.proceed rounds first).account = t.account ∧
      (t.proceed rounds first).received = t.received := by
  unfold proceed
  split
  · exact ⟨rfl, rfl, rfl⟩
  · dsimp only
    split_ifs
    · exact ⟨rfl, rfl, rfl⟩
    · exact ⟨rfl, rfl, rfl⟩

/-- Where the loop ends without an error, the report is empty. -/
theorem proceed_flat (hs : (t.proceed rounds first).succeeded = true) :
    ∃ r, t.report t.account = some r ∧ isFlat r := by
  unfold proceed at hs
  split at hs
  · cases hs
  · next r hr =>
    dsimp only at hs
    by_cases hc : rounds = flattenRounds ∨ isFlat r
    · rw [if_pos hc] at hs
      exact ⟨r, hr, summary_error.1 (Option.isNone_iff_eq_none.1 hs)⟩
    · rw [if_neg hc] at hs
      cases hs

/-- An empty report ends the loop. -/
theorem succeeded_proceed
    (hr : t.report t.account = some r) (hflat : isFlat r) : (t.proceed rounds first).succeeded = true := by
  unfold proceed
  rw [hr]
  dsimp only
  rw [if_pos (.inr hflat)]
  exact Option.isNone_iff_eq_none.2 (summary_error.2 hflat)

theorem Fresh.proceed (h : t.Fresh) :
    (t.proceed rounds first).Fresh ∧ (t.proceed rounds first).Verified := by
  obtain ⟨hreport, haccount, hreceived⟩ := proceed_frame (t := t) rounds first
  constructor
  · unfold Fresh
    rw [hreport, haccount, hreceived]
    exact h
  · intro hs
    obtain ⟨r, hr, hflat⟩ := proceed_flat hs
    rw [hreceived]
    exact ⟨r, (h r hr).resolve_right (not_not_intro hflat), hflat⟩

/-- **One step.** -/
theorem Fresh.step {a : Action} {t' : Terminal} (h : t.Fresh ∧ t.Verified) (hf : fire a t = some t') :
    t'.Fresh ∧ t'.Verified := by
  cases a with
  | desk a =>
    obtain ⟨d, -, rfl⟩ := Option.map_eq_some_iff.1 hf
    exact h
  | report account r =>
    cases hf
    by_cases ha : account = t.account
    · constructor
      · intro r' hr'
        simp only [if_pos ha] at hr' ⊢
        rw [ha, Function.update_self] at hr'
        exact .inl (Option.some.inj hr' ▸ List.mem_append_right _ (List.mem_singleton_self r))
      · intro hs
        simp only [if_pos ha]
        obtain ⟨r', hr', hflat⟩ := h.2 hs
        exact ⟨r', List.mem_append_left _ hr', hflat⟩
    · constructor
      · intro r' hr'
        simp only [if_neg ha] at hr' ⊢
        rw [Function.update_of_ne (Ne.symm ha)] at hr'
        exact h.1 r' hr'
      · intro hs
        simp only [if_neg ha]
        exact h.2 hs
  | settled =>
    simp only [fire] at hf
    split at hf
    · split_ifs at hf
      cases hf
      exact h.1.proceed
    · cases hf

theorem flatten_eq_ok {desk : Dispatch.Desk} {report : ℕ → Option SyncReport} {account : ℕ} {org : Option ℕ}
    (h : flatten desk report account org = .ok t) :
    ∃ t₀ : Terminal, (t₀.report = report ∧ t₀.account = account ∧ t₀.received = []) ∧ t = t₀.proceed 0 none := by
  unfold flatten at h
  cases org with
  | none => cases h
  | some org =>
    by_cases hr : report account = none
    · simp only [if_pos hr] at h
      cases h
    · simp only [if_neg hr] at h
      exact ⟨_, ⟨rfl, rfl, rfl⟩, (Except.ok.inj h).symm⟩

/-- **A verified success**: whatever is reported and acknowledged while the flatten runs, it ends without an error
only after a report that showed an empty book; provided the last report before it did not show one already.  If it
did, the flatten has ended without any. -/
theorem flatten_verified_iff {desk : Dispatch.Desk} {report : ℕ → Option SyncReport} {account : ℕ}
    {org : Option ℕ} {t₀ : Terminal}
    (h : flatten desk report account org = .ok t₀) :
    (∀ t, Machine.Run fire (fun _ _ => True) t₀ t → t.Verified) ↔ ∀ r, report account = some r → ¬ isFlat r := by
  obtain ⟨t, ⟨hreport, haccount, hreceived⟩, rfl⟩ := flatten_eq_ok h
  constructor
  · intro hall r hr hflat
    have hr' : t.report t.account = some r := by rw [hreport, haccount, hr]
    obtain ⟨r', hmem, -⟩ := hall _ (Machine.Run.refl _) (succeeded_proceed hr' hflat)
    rw [(proceed_frame 0 none).2.2, hreceived] at hmem
    cases hmem
  · intro hknown u hu
    have hfresh : t.Fresh := by
      intro r hr
      rw [hreport, haccount] at hr
      exact .inr (hknown r hr)
    exact (hu.invariant hfresh.proceed fun _ _ _ _ hp hf => Fresh.step hp hf).2

/-! ### Two terminals -/

def sampleDesk : Dispatch.Desk := Dispatch.Desk.init (fun _ => none) (fun _ => false) fun _ => Org.live

/-- A report with one position, or with none. -/
def sampleReport (held : Bool) : SyncReport := ⟨if held then [⟨7001, "EURUSD", 100, .unset⟩] else [], [], []⟩

/-- The position is gone when the round has settled. -/
theorem flatten_verified_reported : ∃ t₀ t, flatten sampleDesk (fun _ => some (sampleReport true)) 7
    (some 1) = .ok t₀ ∧
    Machine.Run fire (fun _ _ => True) t₀ t ∧ t.succeeded = true ∧ t.Verified := by
  obtain ⟨t, ht, hs⟩ : ∃ t, Machine.Run fire (fun _ _ => True) _ t ∧ t.succeeded = true :=
    Machine.exists_run [.desk (.poll 7 true), .desk (.ack 7 0 true), .report 7 (sampleReport false),
    .desk (.turn (.advance 1)), .settled]
    (proceed ⟨sampleDesk, fun _ => some (sampleReport true), 7, 1, .settling 0 0 [] [], []⟩ 0 none)
      (by decide +kernel)
  have h₀ : flatten sampleDesk (fun _ => some (sampleReport true)) 7 (some 1) = .ok _ := rfl
  refine ⟨_, t, h₀, ht, hs, (flatten_verified_iff h₀).2 (fun r hr => ?_) t ht⟩
  cases hr
  decide

/-- **An unverified success**: the terminal's last report, of whatever age, shows no position; the flatten ends at
once and nothing has been received. -/
theorem flatten_unverified : ∃ t, flatten sampleDesk (fun _ => some (sampleReport false)) 7 (some 1) = .ok t ∧
    t.succeeded = true ∧ t.received = [] :=
  ⟨_, rfl, by decide, rfl⟩

end Terminal

end Copier.Flatten
