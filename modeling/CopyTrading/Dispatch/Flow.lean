import CopyTrading.Dispatch.Wire

/-!
# Dispatch.Flow — what one action does to the requests

`Entered`, `Settled` and `Turned` say it once, in terms of the places a request can be: a throttle
queue, this turn's callbacks, a wait for a connection or for a retry, the wire, or given up.  Every
invariant of the requests is derived from `fire_cases`.
-/

namespace Copier.Dispatch

open List Function

variable {s s' : State} {a : Action} {j : Job} {ts : List Task}

/-- The requests of this turn's callbacks, in order. -/
def State.turn (s : State) : List Job := s.todo.map Task.job

/-- The requests in the two queues. -/
def State.queued (s : State) : Multiset Job :=
  ((s.buckets .shared).waiters : Multiset Job) + (s.buckets .flatten).waiters

/-- The requests that wait for a connection or for a retry. -/
def State.deferred (s : State) : List Job := s.handoffs.map Handoff.job ++ s.retries.map Retry.job

/-- The requests that are not over. -/
def State.outstanding (s : State) : List Job :=
  s.turn ++ (s.buckets .shared).waiters ++ (s.buckets .flatten).waiters ++ s.deferred

/-- Nothing happened to a request. -/
structure SameJobs (s s' : State) : Prop where
  buckets : s'.buckets = s.buckets
  todo : s'.todo = s.todo
  handoffs : s'.handoffs = s.handoffs
  retries : s'.retries = s.retries
  wire : s'.wire = s.wire
  lost : s'.lost = s.lost
  nextJob : s'.nextJob = s.nextJob
  attempts : s'.attempts = s.attempts

/-- `_send_with_retries` of `j`: a grant finds the queue empty, so either way `j` comes last. -/
structure Entered (j : Job) (s s' : State) : Prop where
  last : s'.turn ++ (s'.buckets j.lane).waiters = (s.buckets j.lane).waiters ++ [j]
  other : ∀ lane, lane ≠ j.lane → s'.buckets lane = s.buckets lane
  handoffs : s'.handoffs = s.handoffs
  retries : s'.retries = s.retries
  wire : s'.wire = s.wire
  lost : s'.lost = s.lost
  nextJob : s'.nextJob = s.nextJob
  attempts : s'.attempts = Function.update s.attempts j.id (s.attempts j.id + 1)

theorem sendWithRetries_entered (hs : s.todo = []) (j : Job) : Entered j s (s.sendWithRetries j) := by
  unfold State.sendWithRetries
  simp only
  rcases (s.buckets j.lane).acquire_cases s.now j with ⟨hg, hw, hw'⟩ | ⟨hg, hw⟩
  · rw [if_pos hg]
    constructor
    case last => simp [State.turn, Task.job, hw, hw']
    case other => exact fun lane h => update_of_ne h _ _
    all_goals rfl
  · rw [if_neg (by simp [hg])]
    constructor
    case last => simp [State.turn, hs, hw]
    case other => exact fun lane h => update_of_ne h _ _
    all_goals rfl

/-- How an attempt leaves its request: written, to be retried, given up, or waiting for a connection. -/
inductive Settled (s : State) (j : Job) : Verdict → State → Prop where
  | written (client conn : ℕ) (statuses : Statuses) :
    Settled s j (.written client conn)
      { s with wire := s.sent j client conn :: s.wire, statuses := statuses }
  | retried : j.attempt < 3 →
    Settled s j .notAttempted { s with retries := s.retries ++
      [⟨s.now + retryDelay j.attempt, { j with attempt := j.attempt + 1 }⟩] }
  | abandoned (v : Verdict) (statuses : Statuses) : v = .ambiguous ∨ (v = .notAttempted ∧ ¬ j.attempt < 3) →
    Settled s j v { s with lost := s.lost ++ [j], statuses := statuses }
  | waiting (client : ℕ) :
    Settled s j (.pending client)
      { s with handoffs := s.handoffs ++ [⟨j, client, s.now + sendHandoffTimeout⟩] }

theorem settle_settled (s : State) (f : Faults) (j : Job) (v : Verdict) :
    Settled s j v (s.settle f j v) := by
  cases v with
  | written client conn =>
    rw [State.settle, State.onSendSuccess]
    split_ifs
    · exact .written client conn _
    · exact .written client conn _
  | notAttempted =>
    rw [State.settle, State.onSendFailure]
    by_cases h : j.attempt < 3
    · rw [if_pos (by simp [h]), if_pos h]
      exact .retried h
    · rw [if_neg (by simp [h]), if_neg h]
      exact .abandoned .notAttempted _ (.inr ⟨rfl, h⟩)
  | ambiguous => exact .abandoned .ambiguous _ (.inl rfl)
  | pending client => exact .waiting client

/-- What the start of a turn does to the requests. -/
inductive Turned (s : State) : Action → State → Prop where
  | dispatch (request : SlaveIntent) (target : ℕ) (org : Option ℕ) (lane : Lane) (s' : State) :
    Entered ⟨s.nextJob, request, target, org, lane, 0⟩ { s with nextJob := s.nextJob + 1 } s' →
    Turned s (.dispatch request target org lane) s'
  | retry (i : ℕ) (r : Retry) (s' : State) : s.retries[i]? = some r →
    Entered r.job { s with retries := s.retries.eraseIdx i } s' → Turned s (.retry i) s'
  | drain (lane : Lane) (b : TokenBucket Job) (js : List Job) :
    js ++ b.waiters = (s.buckets lane).waiters →
    Turned s (.drain lane)
      { s with buckets := Function.update s.buckets lane b, todo := js.map .send }
  | timeout (i : ℕ) (h : Handoff) : s.handoffs[i]? = some h →
    Turned s (.timeout i) { s with handoffs := s.handoffs.eraseIdx i, todo := [.refuse h.job] }
  | settled (a : Action) (s₀ : State) (c : ℕ) (task : Job → Task) : SameJobs s s₀ →
    (∀ j, (task j).job = j) → Turned s a (s₀.settleHandoffs c task)
  | still (a : Action) (s' : State) : SameJobs s s' → Turned s a s'

theorem start_turned (hs : s.todo = []) (h : s.start a = some s') : Turned s a s' := by
  cases a with
  | run f => cases h
  | dispatch request target org lane =>
    cases h
    refine .dispatch request target org lane _ (sendWithRetries_entered ?_ _)
    exact hs
  | advance dt =>
    simp only [State.start] at h
    split_ifs at h
    cases h
    exact .still _ _ ⟨rfl, rfl, rfl, rfl, rfl, rfl, rfl, rfl⟩
  | drain lane =>
    simp only [State.start] at h
    split at h
    · split_ifs at h
      cases h
      exact .drain lane _ _ ((s.buckets lane).drain_append s.now)
    · cases h
  | retry i =>
    simp only [State.start] at h
    split at h
    · next r hr =>
      split_ifs at h
      cases h
      refine .retry i r _ hr (sendWithRetries_entered ?_ _)
      exact hs
    · cases h
  | timeout i =>
    simp only [State.start] at h
    split at h
    · next w hw =>
      split_ifs at h
      cases h
      exact .timeout i w hw
    · cases h
  | connect c =>
    simp only [State.start] at h
    split_ifs at h
    cases h
    exact .settled _ _ c _ ⟨rfl, rfl, rfl, rfl, rfl, rfl, rfl, rfl⟩ fun _ => rfl
  | connectFails c =>
    simp only [State.start] at h
    split_ifs at h
    cases h
    exact .settled _ s c _ ⟨rfl, rfl, rfl, rfl, rfl, rfl, rfl, rfl⟩ fun _ => rfl
  | disconnect c =>
    simp only [State.start] at h
    split_ifs at h
    · cases h
      exact .settled _ _ c _ ⟨rfl, rfl, rfl, rfl, rfl, rfl, rfl, rfl⟩ fun _ => rfl
    · cases h
      exact .still _ _ ⟨rfl, rfl, rfl, rfl, rfl, rfl, rfl, rfl⟩
  | authAnswer c x =>
    simp only [State.start] at h
    split at h
    · cases h
      exact .still _ _ ⟨rfl, rfl, rfl, rfl, rfl, rfl, rfl, rfl⟩
    · cases h
  | stop c | becomeReady c | authorize c x | deauthorize c x | assign x c =>
    cases h
    exact .still _ _ ⟨rfl, rfl, rfl, rfl, rfl, rfl, rfl, rfl⟩

/-- The next callback runs. -/
theorem fire_run {t : Task} (hs : s.todo = t :: ts) (f : Faults) :
    State.fire (.run f) s = some ({ s with todo := ts }.settle f t.job (s.verdict f t)) := by
  rw [State.fire, hs]

/-- **What one action does**: it runs the next callback, or it starts a turn when none is running. -/
theorem fire_cases (h : State.fire a s = some s') : (∃ f t ts, a = .run f ∧ s.todo = t :: ts ∧
      Settled { s with todo := ts } t.job (s.verdict f t) s') ∨
    (s.todo = [] ∧ s.start a = some s') := by
  rw [State.fire] at h
  cases hs : s.todo with
  | nil =>
    rw [hs] at h
    exact .inr ⟨rfl, h⟩
  | cons t ts =>
    rw [hs] at h
    simp only at h
    split at h
    · next f =>
      cases h
      exact .inl ⟨f, t, ts, rfl, rfl, settle_settled _ f _ _⟩
    · cases h

/-! ### Where the requests are -/

theorem Entered.queued (h : Entered j s s') : (s'.turn : Multiset Job) + s'.queued = s.queued + {j} := by
  have hlast : (s'.turn : Multiset Job) + (s'.buckets j.lane).waiters =
      ((s.buckets j.lane).waiters : Multiset Job) + {j} := by
    have h := congrArg (fun l : List Job => (l : Multiset Job)) h.last
    simpa only [← Multiset.coe_add, Multiset.coe_singleton] using h
  unfold State.queued
  cases hl : j.lane with
  | shared =>
    rw [hl] at hlast
    rw [h.other .flatten (by simp [hl]), ← add_assoc, hlast]
    abel
  | flatten =>
    rw [hl] at hlast
    rw [h.other .shared (by simp [hl]), add_left_comm, hlast]
    abel

theorem drain_queued {lane : Lane} {b : TokenBucket Job} {js : List Job} (ts : List Task)
    (h : js ++ b.waiters = (s.buckets lane).waiters) :
    (js : Multiset Job) + { s with buckets := Function.update s.buckets lane b, todo := ts }.queued =
      s.queued := by
  have hq : ((s.buckets lane).waiters : Multiset Job) = (js : Multiset Job) + b.waiters := by
    rw [← h, Multiset.coe_add]
  cases lane with
  | shared =>
    simp only [State.queued, update_self,
      update_of_ne (show Lane.flatten ≠ .shared by decide), hq, add_assoc]
  | flatten =>
    simp only [State.queued, update_self,
      update_of_ne (show Lane.shared ≠ .flatten by decide), hq]
    rw [add_left_comm]

theorem deferred_eraseRetry {i : ℕ} {r : Retry} (hi : s.retries[i]? = some r) :
    (r.job :: { s with retries := s.retries.eraseIdx i }.deferred).Perm s.deferred := by
  obtain ⟨hlt, rfl⟩ := List.getElem?_eq_some_iff.1 hi
  refine List.perm_middle.symm.trans ?_
  exact ((List.getElem_cons_eraseIdx_perm hlt).map Retry.job).append_left _

theorem deferred_eraseHandoff {i : ℕ} {h : Handoff} (hi : s.handoffs[i]? = some h) (ts : List Task) :
    (h.job :: { s with handoffs := s.handoffs.eraseIdx i, todo := ts }.deferred).Perm s.deferred := by
  obtain ⟨hlt, rfl⟩ := List.getElem?_eq_some_iff.1 hi
  exact ((List.getElem_cons_eraseIdx_perm hlt).map Handoff.job).append_right _

theorem map_job {task : Job → Task} (ht : ∀ j, (task j).job = j) (js : List Job) :
    (js.map task).map Task.job = js := by
  rw [map_map]
  exact map_id'' ht _

theorem map_send (js : List Job) : (js.map Task.send).map Task.job = js := map_job (fun _ => rfl) js

theorem waitingFor_append (s : State) (c : ℕ) : (s.waitingFor c ++
    (s.handoffs.filter fun h => h.client ≠ c).map Handoff.job).Perm (s.handoffs.map Handoff.job) := by
  rw [State.waitingFor, ← map_append]
  refine Perm.map _ ?_
  simpa using filter_append_perm (fun h : Handoff => Decidable.decide (h.client = c)) s.handoffs

theorem deferred_settleHandoffs (c : ℕ) {task : Job → Task} (ht : ∀ j, (task j).job = j) :
    ((s.settleHandoffs c task).turn ++ (s.settleHandoffs c task).deferred).Perm s.deferred := by
  have hturn : (s.settleHandoffs c task).turn = s.waitingFor c := map_job ht _
  rw [hturn, State.deferred, ← append_assoc]
  exact (waitingFor_append s c).append_right _

theorem coe_outstanding (s : State) :
    (s.outstanding : Multiset Job) = s.turn + s.queued + s.deferred := by
  simp only [State.outstanding, State.queued, ← Multiset.coe_add]
  abel

theorem Entered.outstanding (h : Entered j s s') (hs : s.todo = []) :
    (s'.outstanding : Multiset Job) = s.outstanding + {j} := by
  rw [coe_outstanding, coe_outstanding, h.queued, State.deferred, State.deferred, h.handoffs, h.retries]
  simp only [State.turn, hs, map_nil, Multiset.coe_nil, zero_add]
  abel

/-- The start of a turn only moves requests, a dispatch apart. -/
theorem Turned.outstanding (h : Turned s a s') (hs : s.todo = []) :
    (s'.outstanding : Multiset Job) = s.outstanding ∨
      ∃ request target org lane, a = .dispatch request target org lane ∧
        (s'.outstanding : Multiset Job) =
          s.outstanding + {⟨s.nextJob, request, target, org, lane, 0⟩} := by
  have hturn : (s.turn : Multiset Job) = 0 := by simp [State.turn, hs]
  cases h with
  | dispatch request target org lane s' he =>
    exact .inr ⟨request, target, org, lane, rfl, he.outstanding hs⟩
  | retry i r s' hi he =>
    refine .inl ?_
    have hd : (s.deferred : Multiset Job) =
        { s with retries := s.retries.eraseIdx i }.deferred + {r.job} := by
      rw [add_comm, Multiset.singleton_add, Multiset.cons_coe]
      exact (Multiset.coe_eq_coe.2 (deferred_eraseRetry hi)).symm
    rw [he.outstanding hs, coe_outstanding, coe_outstanding s, hd, ← add_assoc]
    rfl
  | drain lane b js h =>
    refine .inl ?_
    rw [coe_outstanding, coe_outstanding s, hturn, zero_add, ← drain_queued (js.map Task.send) h]
    simp only [State.turn, map_send]
    rfl
  | timeout i h hi =>
    refine .inl ?_
    have hd := Multiset.coe_eq_coe.2 (deferred_eraseHandoff hi [.refuse h.job])
    rw [coe_outstanding, coe_outstanding s, hturn, zero_add, ← hd, ← Multiset.cons_coe,
      ← Multiset.singleton_add]
    show ({h.job} : Multiset Job) + s.queued + _ = _
    abel
  | settled a s₀ c task h₀ ht =>
    refine .inl ?_
    have hd := Multiset.coe_eq_coe.2 (deferred_settleHandoffs (s := s₀) c ht)
    have hq : (s₀.settleHandoffs c task).queued = s.queued := by
      show s₀.queued = s.queued
      rw [State.queued, State.queued, h₀.buckets]
    have hd₀ : s₀.deferred = s.deferred := by
      rw [State.deferred, State.deferred, h₀.handoffs, h₀.retries]
    rw [coe_outstanding, coe_outstanding s, hturn, zero_add, hq, ← hd₀, ← hd, ← Multiset.coe_add]
    abel
  | still a s' h =>
    refine .inl ?_
    simp only [State.outstanding, State.turn, State.deferred, h.buckets, h.todo, h.handoffs, h.retries]

/-- The end of an attempt keeps its request or drops it. -/
theorem Settled.mem_outstanding {v : Verdict} {t : Task} (hs : s.todo = t :: ts)
    (h : Settled { s with todo := ts } t.job v s') (hj : j ∈ s'.outstanding) :
    ∃ i ∈ s.outstanding, i.org = j.org := by
  have hhead : t.job ∈ s.outstanding := by simp [State.outstanding, State.turn, hs]
  have hrest : ∀ i ∈ { s with todo := ts }.outstanding, i ∈ s.outstanding := by
    intro i hi
    simp only [State.outstanding, State.turn, hs, map_cons, cons_append] at hi ⊢
    exact mem_cons_of_mem _ hi
  cases h with
  | written c n statuses | abandoned v statuses hv => exact ⟨j, hrest j hj, rfl⟩
  | retried hlt =>
    simp only [State.outstanding, State.turn, State.deferred, map_append,
      ← append_assoc] at hj
    rcases mem_append.1 hj with hj | hj
    · refine ⟨j, hrest j ?_, rfl⟩
      simpa only [State.outstanding, State.turn, State.deferred, ← append_assoc] using hj
    · obtain rfl := mem_singleton.1 hj
      exact ⟨t.job, hhead, rfl⟩
  | waiting c =>
    simp only [State.outstanding, State.turn, State.deferred, map_append, mem_append] at hj
    by_cases he : j = t.job
    · exact ⟨t.job, hhead, he ▸ rfl⟩
    · refine ⟨j, hrest j ?_, rfl⟩
      simp only [State.outstanding, State.turn, State.deferred, mem_append]
      simpa [he] using hj

/-- An outstanding request was outstanding before, or is dispatched by the action. -/
theorem outstanding_of_fire (hf : State.fire a s = some s') (hj : j ∈ s'.outstanding) :
    (∃ i ∈ s.outstanding, i.org = j.org) ∨
      ∃ request target lane, a = .dispatch request target j.org lane := by
  rcases fire_cases hf with ⟨f, t, ts, -, hs, hset⟩ | ⟨hs, hst⟩
  · exact .inl (hset.mem_outstanding hs hj)
  · rw [← Multiset.mem_coe] at hj
    rcases (start_turned hs hst).outstanding hs with he | ⟨request, target, org, lane, rfl, he⟩
    · rw [he] at hj
      exact .inl ⟨j, hj, rfl⟩
    · rw [he, Multiset.mem_add, Multiset.mem_singleton] at hj
      rcases hj with hj | rfl
      · exact .inl ⟨j, hj, rfl⟩
      · exact .inr ⟨request, target, lane, rfl⟩

/-- Only an outstanding request is written. -/
theorem wire_of_fire (hf : State.fire a s = some s') :
    s'.wire = s.wire ∨ ∃ w, s'.wire = w :: s.wire ∧ w.job ∈ s.outstanding := by
  rcases fire_cases hf with ⟨f, t, ts, -, hs, hset⟩ | ⟨hs, hst⟩
  · generalize s.verdict f t = v at hset
    cases hset with
    | written c n statuses =>
      exact .inr ⟨_, rfl, by simp [State.sent, State.outstanding, State.turn, hs]⟩
    | abandoned v statuses hv | retried hlt | waiting c => exact .inl rfl
  · refine .inl ?_
    cases start_turned hs hst with
    | dispatch request target org lane s' he | retry i r s' hi he => exact he.wire
    | drain lane b js h | timeout i h hi => rfl
    | settled a s₀ c task h₀ ht => exact h₀.wire
    | still a s' h => exact h.wire

end Copier.Dispatch
