import CopyTrading.Dispatch.Flow

/-!
# Dispatch.AtMostOnce — every request is written at most once

`tally` lists every request once, with the number of attempts made for it: a request goes from place to
place, an attempt ends in one of them, and only a retry's timer makes the number grow.  `Linked` ties
the client's view of its accounts to the connection: a request never waits for a connection that comes.
-/

namespace Copier.Dispatch

open List Function State

variable {s s₀ s' : State} {a : Action} {j : Job} {v : Verdict} {t : Task} {ts : List Task}
  {f : Faults} {c : ℕ}

/-- A request with its attempts: the one it is in counts. -/
def Job.tried (j : Job) : ℕ × ℕ := (j.id, j.attempt + 1)

/-- A request that waits for its next attempt. -/
def Retry.tried (r : Retry) : ℕ × ℕ := (r.job.id, r.job.attempt)

/-- Every request that was dispatched. -/
def State.tally (s : State) : Multiset (ℕ × ℕ) :=
  (s.turn + s.queued + (s.handoffs.map Handoff.job : Multiset Job) + (s.wire.map Sent.job : Multiset Job) +
    s.lost).map Job.tried + (s.retries : Multiset Retry).map Retry.tried

/-! ### How the tally changes -/

theorem SameJobs.tally (h : SameJobs s s') : s'.tally = s.tally := by
  simp only [State.tally, State.turn, State.queued, h.buckets, h.todo, h.handoffs, h.retries, h.wire,
    h.lost]

theorem Entered.tally (h : Entered j s s') (hs : s.todo = []) : s'.tally = s.tally + {j.tried} := by
  unfold State.tally
  rw [h.queued, h.handoffs, h.retries, h.wire, h.lost]
  simp only [State.turn, hs, map_nil, Multiset.coe_nil, zero_add, Multiset.map_add,
    Multiset.map_singleton]
  abel

theorem tally_eraseRetry {i : ℕ} {r : Retry} (h : s.retries[i]? = some r) :
    s.tally = { s with retries := s.retries.eraseIdx i }.tally + {r.tried} := by
  obtain ⟨hi, rfl⟩ := List.getElem?_eq_some_iff.1 h
  have hp : (s.retries : Multiset Retry) = {s.retries[i]} + (s.retries.eraseIdx i : Multiset Retry) :=
    (Multiset.coe_eq_coe.2 (List.getElem_cons_eraseIdx_perm hi)).symm
  unfold State.tally
  rw [hp]
  simp only [Multiset.map_add, Multiset.map_singleton, State.turn, State.queued]
  abel

/-- A callback of the turn ends somewhere else, with the attempts it had. -/
theorem Settled.tally (hs : s.todo = t :: ts)
    (h : Settled { s with todo := ts } t.job v s') : s'.tally = s.tally := by
  cases h <;>
  · simp only [State.tally, State.turn, State.queued, hs, State.sent, map_cons, map_append,
      map_nil, ← Multiset.cons_coe, ← Multiset.coe_add, Multiset.map_add,
      Multiset.coe_nil, ← Multiset.singleton_add, Multiset.map_singleton, Job.tried, Retry.tried]
    abel

theorem settleHandoffs_tally (hs : s.todo = []) (c : ℕ) {task : Job → Task}
    (ht : ∀ j, (task j).job = j) : (s.settleHandoffs c task).tally = s.tally := by
  have hp := Multiset.coe_eq_coe.2 (waitingFor_append s c)
  rw [← Multiset.coe_add] at hp
  simp only [State.tally, settleHandoffs, State.turn, State.queued, map_job ht, hs, map_nil,
    Multiset.coe_nil, zero_add, ← hp]
  congr 2
  abel

theorem drain_tally (hs : s.todo = []) {lane : Lane} {b : TokenBucket Job} {js : List Job}
    (h : js ++ b.waiters = (s.buckets lane).waiters) :
    { s with buckets := Function.update s.buckets lane b, todo := js.map .send }.tally = s.tally := by
  unfold State.tally
  rw [← drain_queued (js.map Task.send) h]
  simp only [State.turn, map_send, hs, map_nil, Multiset.coe_nil, zero_add]

theorem timeout_tally (hs : s.todo = []) {i : ℕ} {h : Handoff} (hi : s.handoffs[i]? = some h) :
    { s with handoffs := s.handoffs.eraseIdx i, todo := [.refuse h.job] }.tally = s.tally := by
  obtain ⟨hlt, rfl⟩ := List.getElem?_eq_some_iff.1 hi
  have hp : ({s.handoffs[i].job} : Multiset Job) + ((s.handoffs.eraseIdx i).map Handoff.job : List Job) =
      (s.handoffs.map Handoff.job : List Job) :=
    Multiset.coe_eq_coe.2 ((List.getElem_cons_eraseIdx_perm hlt).map Handoff.job)
  simp only [State.tally, State.turn, State.queued, hs, Task.job, map_nil, map_cons,
    Multiset.coe_nil, Multiset.coe_singleton, zero_add, ← hp]
  congr 2
  abel

/-! ### Every request once -/

/-- Every request is in one place, with the attempts it was given. -/
structure Counted (s : State) : Prop where
  nodup : (s.tally.map Prod.fst).Nodup
  made : ∀ e ∈ s.tally, e.1 < s.nextJob ∧ s.attempts e.1 = e.2
  fresh : ∀ i, s.nextJob ≤ i → s.attempts i = 0
  waiting : ∀ r ∈ s.retries, r.job.attempt ≤ 3
  bounded : ∀ i, s.attempts i ≤ 4

theorem Counted.init : Counted State.init := by
  have ht : State.init.tally = 0 := rfl
  refine ⟨?_, ?_, fun _ _ => rfl, ?_, fun _ => Nat.zero_le _⟩
  · simp [ht]
  · simp [ht]
  · simp [State.init]

/-- Requests that only change their place. -/
theorem Counted.moved (hc : Counted s) (ht : s'.tally = s.tally) (hn : s'.nextJob = s.nextJob)
    (ha : s'.attempts = s.attempts) (hr : ∀ r ∈ s'.retries, r.job.attempt ≤ 3) : Counted s' := by
  constructor
  case nodup => exact ht ▸ hc.nodup
  case made =>
    rw [ht, hn, ha]
    exact hc.made
  case fresh =>
    rw [hn, ha]
    exact hc.fresh
  case waiting => exact hr
  case bounded => exact ha ▸ hc.bounded

/-- A request starts an attempt. -/
theorem Counted.entered (hc : Counted s₀) (hs : s₀.todo = []) (he : Entered j s₀ s')
    (hj : j.id ∉ s₀.tally.map Prod.fst) (hlt : j.id < s₀.nextJob) (hat : s₀.attempts j.id = j.attempt)
    (hle : j.attempt ≤ 3) : Counted s' := by
  have ht := he.tally hs
  have hself : s'.attempts j.id = j.attempt + 1 := by
    rw [he.attempts, update_self, hat]
  have hother : ∀ i, i ≠ j.id → s'.attempts i = s₀.attempts i := fun i hi => by
    rw [he.attempts, update_of_ne hi]
  constructor
  case nodup =>
    rw [ht, Multiset.map_add, Multiset.map_singleton, add_comm, Multiset.singleton_add,
      Multiset.nodup_cons]
    exact ⟨hj, hc.nodup⟩
  case made =>
    intro e hmem
    rw [ht, Multiset.mem_add, Multiset.mem_singleton] at hmem
    rw [he.nextJob]
    rcases hmem with hmem | rfl
    · have hne : e.1 ≠ j.id := by
        rintro h
        exact hj (h ▸ Multiset.mem_map_of_mem Prod.fst hmem)
      rw [hother _ hne]
      exact hc.made e hmem
    · exact ⟨hlt, hself⟩
  case fresh =>
    intro i hi
    rw [he.nextJob] at hi
    rw [hother i (by omega)]
    exact hc.fresh i hi
  case waiting =>
    rw [he.retries]
    exact hc.waiting
  case bounded =>
    intro i
    by_cases hi : i = j.id
    · rw [hi, hself]
      omega
    · rw [hother i hi]
      exact hc.bounded i

section

variable (hc : Counted s)
include hc

theorem Counted.settled
    (hs : s.todo = t :: ts) (h : Settled { s with todo := ts } t.job v s') : Counted s' := by
  have ht := h.tally hs
  cases h with
  | retried hlt =>
    refine hc.moved ht rfl rfl ?_
    refine forall_mem_append.2 ⟨hc.waiting, forall_mem_singleton.2 ?_⟩
    exact hlt
  | written client conn statuses | abandoned v statuses hv | waiting client =>
    exact hc.moved ht rfl rfl hc.waiting

theorem Counted.turned (hs : s.todo = []) (h : Turned s a s') : Counted s' := by
  cases h with
  | dispatch request target org lane s' he =>
    have hnew : s.nextJob ∉ s.tally.map Prod.fst := by
      intro hmem
      obtain ⟨e, hmem, he⟩ := Multiset.mem_map.1 hmem
      have := (hc.made e hmem).1
      omega
    have hc' : Counted { s with nextJob := s.nextJob + 1 } :=
      ⟨hc.nodup, fun e hmem => ⟨Nat.lt_succ_of_lt (hc.made e hmem).1, (hc.made e hmem).2⟩,
        fun i hi => hc.fresh i (Nat.le_of_succ_le hi), hc.waiting, hc.bounded⟩
    exact hc'.entered hs he hnew (Nat.lt_succ_self _) (hc.fresh _ le_rfl) (Nat.zero_le _)
  | retry i r s' hi he =>
    have ht := tally_eraseRetry hi
    have hmem : r.tried ∈ s.tally := by
      rw [ht]
      exact Multiset.mem_add.2 (.inr (Multiset.mem_singleton_self _))
    have hnd := hc.nodup
    rw [ht, Multiset.map_add, Multiset.map_singleton, add_comm, Multiset.singleton_add,
      Multiset.nodup_cons] at hnd
    have hc' : Counted { s with retries := s.retries.eraseIdx i } :=
      ⟨hnd.2, fun e he => hc.made e (ht ▸ Multiset.mem_add.2 (.inl he)), hc.fresh,
        fun r hr => hc.waiting r (mem_of_mem_eraseIdx hr), hc.bounded⟩
    exact hc'.entered hs he hnd.1 (hc.made _ hmem).1 (hc.made _ hmem).2
      (hc.waiting r (mem_of_getElem? hi))
  | drain lane b js h => exact hc.moved (drain_tally hs h) rfl rfl hc.waiting
  | timeout i h hi => exact hc.moved (timeout_tally hs hi) rfl rfl hc.waiting
  | settled a s₀ c task h₀ ht =>
    have hs₀ : s₀.todo = [] := h₀.todo.trans hs
    refine hc.moved ((settleHandoffs_tally hs₀ c ht).trans h₀.tally) h₀.nextJob h₀.attempts ?_
    show ∀ r ∈ s₀.retries, r.job.attempt ≤ 3
    exact h₀.retries ▸ hc.waiting
  | still a s' h =>
    exact hc.moved h.tally h.nextJob h.attempts (h.retries ▸ hc.waiting)

theorem Counted.fire (h : State.fire a s = some s') : Counted s' := by
  rcases fire_cases h with ⟨f, t, ts, -, hs, hset⟩ | ⟨hs, hst⟩
  · exact hc.settled hs hset
  · exact hc.turned hs (start_turned hs hst)

theorem Counted.wire_nodup : (s.wire.map fun w => w.job.id).Nodup := by
  have h : ((s.wire.map fun w => w.job.id : List ℕ) : Multiset ℕ) ≤ s.tally.map Prod.fst := by
    simp only [State.tally, Multiset.map_add, Multiset.map_coe, Multiset.map_map, map_map]
    refine le_trans ?_ (Multiset.le_add_right _ _)
    refine le_trans ?_ (Multiset.le_add_right _ _)
    exact Multiset.le_add_left _ _
  exact Multiset.coe_nodup.1 (Multiset.nodup_of_le h hc.nodup)

/-- A request that is to be retried was not written. -/
theorem Counted.retry_unwritten {r : Retry} (hr : r ∈ s.retries) {w : Sent}
    (hw : w ∈ s.wire) : w.job.id ≠ r.job.id := by
  have hd := hc.nodup
  rw [State.tally, Multiset.map_add] at hd
  intro he
  refine Multiset.disjoint_left.1 (Multiset.disjoint_of_nodup_add hd)
    (Multiset.mem_map.2 ⟨w.job.tried, ?_, rfl⟩)
    (Multiset.mem_map.2 ⟨r.tried, Multiset.mem_map_of_mem _ hr, he.symm⟩)
  refine Multiset.mem_map_of_mem _ ?_
  simp only [Multiset.mem_add]
  exact .inl (.inr (mem_map_of_mem hw))

end

/-! ### Registered and authed on the connection -/

/-- An authed account was answered on the connection there is; requests wait only for clients that are
being stopped, whose connection does not come; what was written had an authed account. -/
structure Linked (s : State) : Prop where
  authed : ∀ c, ∀ x ∈ (s.links c).authed, ∃ k, (s.links c).conn = some k ∧ (k, x) ∈ (s.links c).answered
  handoffs : ∀ h ∈ s.handoffs, (s.links h.client).stopping = true
  todo : ∀ t ∈ s.todo, ∀ j c, t ≠ .deliver j c
  wire : ∀ w ∈ s.wire, w.registered = true ∧ w.authed = true

theorem Linked.init : Linked State.init := by
  constructor <;> simp [State.init, State.idleLink]

section Gate

variable {f : Faults} {x c k : ℕ}

/-- What `send_for_account` has checked when it hands the request to the SDK. -/
theorem sendForAccount_handed {v : Verdict} (h : s.sendForAccount f x = v)
    (hv : v ≠ .notAttempted ∧ v ≠ .ambiguous) :
    ∃ c, x ∈ (s.links c).accounts ∧ x ∈ (s.links c).authed ∧ s.sendNoReply f c = v := by
  obtain ⟨hn, ha⟩ := hv
  unfold sendForAccount at h
  split_ifs at h
  · exact absurd h.symm ha
  · split at h
    · exact absurd h.symm hn
    · next c hc =>
      split_ifs at h with hr hx hy
      · exact absurd h.symm hn
      · exact ⟨c, hx, hy, h⟩
      · exact absurd h.symm hn
      · exact absurd h.symm hn

theorem sendNoReply_written {c' : ℕ} (h : s.sendNoReply f c' = .written c k) :
    c' = c ∧ (s.links c).conn = some k := by
  unfold sendNoReply at h
  split at h
  · next conn hconn =>
    split_ifs at h
    cases h
    exact ⟨rfl, hconn⟩
  · split_ifs at h

theorem sendNoReply_pending {c' : ℕ} (h : s.sendNoReply f c' = .pending c) :
    c' = c ∧ ((s.links c).conn = none ∨ (s.links c).stopping = true) := by
  unfold sendNoReply at h
  split at h
  · split_ifs at h with hst
    cases h
    exact ⟨rfl, .inr hst⟩
  · next hconn =>
    split_ifs at h
    cases h
    exact ⟨rfl, .inl hconn⟩

end Gate

section

variable (hl : Linked s)
include hl

theorem Linked.verdict_written {k : ℕ} (ht : t ∈ s.todo)
    (h : s.verdict f t = .written c k) :
    t.job.account ∈ (s.links c).accounts ∧ t.job.account ∈ (s.links c).authed ∧
      (k, t.job.account) ∈ (s.links c).answered := by
  cases t with
  | send j =>
    obtain ⟨c', hx, hy, h⟩ := sendForAccount_handed h ⟨nofun, nofun⟩
    obtain ⟨rfl, hk⟩ := sendNoReply_written h
    obtain ⟨k', hk', hans⟩ := hl.authed c' _ hy
    cases hk.symm.trans hk'
    exact ⟨hx, hy, hans⟩
  | deliver j c' => exact absurd rfl (hl.todo _ ht j c')
  | refuse j => cases h

/-- With the account authed there is a connection: the SDK lets a request wait only while it stops. -/
theorem Linked.verdict_pending (ht : t ∈ s.todo)
    (h : s.verdict f t = .pending c) : (s.links c).stopping = true := by
  cases t with
  | send j =>
    obtain ⟨c', -, hy, h⟩ := sendForAccount_handed h ⟨nofun, nofun⟩
    obtain ⟨rfl, hst⟩ := sendNoReply_pending h
    obtain ⟨k, hk, -⟩ := hl.authed c' _ hy
    rw [hk] at hst
    exact hst.resolve_left nofun
  | deliver j c' => exact absurd rfl (hl.todo _ ht j c')
  | refuse j => cases h

theorem Linked.run (hs : s.todo = t :: ts)
    (h : Settled { s with todo := ts } t.job (s.verdict f t) s') : Linked s' := by
  have ht : t ∈ s.todo := hs ▸ mem_cons_self
  have hts : ∀ u ∈ ts, ∀ j c, u ≠ .deliver j c := fun u hu =>
    hl.todo u (hs ▸ mem_cons_of_mem _ hu)
  generalize hv : s.verdict f t = v at h
  cases h with
  | written c k statuses =>
    refine ⟨hl.authed, hl.handoffs, hts, ?_⟩
    refine forall_mem_cons.2 ⟨?_, hl.wire⟩
    obtain ⟨hx, hy, hans⟩ := hl.verdict_written ht hv
    exact ⟨decide_eq_true hx, decide_eq_true ⟨hy, hans⟩⟩
  | retried hlt | abandoned v statuses hv => exact ⟨hl.authed, hl.handoffs, hts, hl.wire⟩
  | waiting c =>
    refine ⟨hl.authed, ?_, hts, hl.wire⟩
    refine forall_mem_append.2 ⟨hl.handoffs, forall_mem_singleton.2 ?_⟩
    exact hl.verdict_pending ht hv

/-- A client's own state changes. -/
theorem Linked.setLink {l : Link}
    (ha : ∀ x ∈ l.authed, ∃ k, l.conn = some k ∧ (k, x) ∈ l.answered)
    (hst : (s.links c).stopping = true → l.stopping = true) : Linked (s.setLink c l) := by
  refine ⟨?_, ?_, hl.todo, hl.wire⟩
  · exact (forall_update_iff s.links fun _ l => ∀ x ∈ l.authed, ∃ k, l.conn = some k ∧ (k, x) ∈ l.answered).2
      ⟨ha, fun d _ => hl.authed d⟩
  · intro w hw
    show (update s.links c l w.client).stopping = true
    by_cases hd : w.client = c
    · rw [hd, update_self]
      exact hst (hd ▸ hl.handoffs w hw)
    · rw [update_of_ne hd]
      exact hl.handoffs w hw

theorem Linked.refused (c : ℕ) : Linked (s.settleHandoffs c .refuse) := by
  refine ⟨hl.authed, fun w hw => hl.handoffs w (mem_of_mem_filter hw), ?_, hl.wire⟩
  intro t ht j d
  obtain ⟨x, -, rfl⟩ := mem_map.1 ht
  exact nofun

/-- A connection comes up for a client nobody waits for. -/
theorem Linked.waitingFor_nil (hst : (s.links c).stopping = false) :
    s.waitingFor c = [] := by
  refine map_eq_nil_iff.2 (filter_eq_nil_iff.2 ?_)
  intro w hw
  simp only [decide_eq_true_eq]
  rintro rfl
  simp [hl.handoffs w hw] at hst

theorem Linked.entered (j : Job) : Linked (s.sendWithRetries j) := by
  unfold sendWithRetries
  simp only
  split_ifs
  · refine ⟨hl.authed, hl.handoffs, ?_, hl.wire⟩
    intro t ht i c
    obtain rfl := mem_singleton.1 ht
    exact nofun
  · exact ⟨hl.authed, hl.handoffs, hl.todo, hl.wire⟩

theorem Linked.start (h : s.start a = some s') : Linked s' := by
  cases a with
  | run f => cases h
  | dispatch request target org lane =>
    cases h
    refine Linked.entered ?_ _
    exact ⟨hl.authed, hl.handoffs, hl.todo, hl.wire⟩
  | advance dt =>
    simp only [start] at h
    split_ifs at h
    cases h
    exact ⟨hl.authed, hl.handoffs, hl.todo, hl.wire⟩
  | drain lane =>
    simp only [start] at h
    split at h
    · split_ifs at h
      cases h
      refine ⟨hl.authed, hl.handoffs, ?_, hl.wire⟩
      intro t ht j c
      obtain ⟨x, -, rfl⟩ := mem_map.1 ht
      intro hj
      cases hj
    · cases h
  | retry i =>
    simp only [start] at h
    split at h
    · split_ifs at h
      cases h
      refine Linked.entered ?_ _
      exact ⟨hl.authed, hl.handoffs, hl.todo, hl.wire⟩
    · cases h
  | timeout i =>
    simp only [start] at h
    split at h
    · split_ifs at h
      cases h
      refine ⟨hl.authed, fun w hw => hl.handoffs w (mem_of_mem_eraseIdx hw), ?_, hl.wire⟩
      intro t ht j c
      obtain rfl := mem_singleton.1 ht
      intro hj
      cases hj
    · cases h
  | connect c =>
    simp only [start] at h
    split_ifs at h with hc
    cases h
    have hnone : ∀ x, x ∉ (s.links c).authed := by
      intro x hx
      obtain ⟨k, hk, -⟩ := hl.authed c x hx
      simp [hc.1] at hk
    have hl' := hl.setLink (c := c) (l := { s.links c with conn := some s.nextConn })
      (fun x hx => absurd hx (hnone x)) id
    refine ⟨hl'.authed, fun w hw => hl'.handoffs w (mem_of_mem_filter hw), ?_, hl.wire⟩
    intro t ht
    change t ∈ (s.waitingFor c).map _ at ht
    rw [hl.waitingFor_nil hc.2] at ht
    cases ht
  | connectFails c =>
    simp only [start] at h
    split_ifs at h
    cases h
    exact hl.refused c
  | disconnect c =>
    have hl' := hl.setLink (c := c) (l := { s.links c with conn := none, authed := [] }) (forall_mem_nil _) id
    simp only [start] at h
    split_ifs at h
    · cases h
      exact hl'.refused c
    · cases h
      exact hl'
  | stop c =>
    cases h
    exact hl.setLink (hl.authed c) fun _ => rfl
  | becomeReady c | authorize c x =>
    cases h
    exact hl.setLink (hl.authed c) id
  | deauthorize c x =>
    cases h
    exact hl.setLink (fun y hy => hl.authed c y (mem_of_mem_filter hy)) id
  | authAnswer c x =>
    simp only [start] at h
    split at h
    · next conn hconn =>
      cases h
      refine hl.setLink ?_ id
      intro y hy
      rcases mem_cons.1 hy with rfl | hy
      · exact ⟨conn, hconn, mem_cons_self⟩
      · obtain ⟨k, hk, hans⟩ := hl.authed c y hy
        exact ⟨k, hk, mem_cons_of_mem _ hans⟩
    · cases h
  | assign x c =>
    cases h
    exact ⟨hl.authed, hl.handoffs, hl.todo, hl.wire⟩

theorem Linked.fire (h : State.fire a s = some s') : Linked s' := by
  rcases fire_cases h with ⟨f, t, ts, -, hs, hset⟩ | ⟨-, hst⟩
  · exact hl.run hs hset
  · exact hl.start hst

end

/-- **At most once on the wire**: whatever waits, connections, answers and errors a run has, no request
is written twice, one that is to be sent again was not written, there are at most four attempts, and
what is written has an account that is registered and authed on the connection it goes to. -/
theorem written_at_most_once (h : Machine.Run State.fire (fun _ _ => True) State.init s) :
    (s.wire.map fun w => w.job.id).Nodup ∧
      (∀ r ∈ s.retries, ∀ w ∈ s.wire, w.job.id ≠ r.job.id) ∧
      (∀ i, s.attempts i ≤ 4) ∧
      ∀ w ∈ s.wire, w.registered = true ∧ w.authed = true := by
  have hc : Counted s := h.invariant Counted.init fun _ _ _ _ hc hf => hc.fire hf
  have hl : Linked s := h.invariant Linked.init fun _ _ _ _ hl hf => hl.fire hf
  exact ⟨hc.wire_nodup, fun r hr w hw => hc.retry_unwritten hr hw, hc.bounded, hl.wire⟩

/-- A request whose account is not authed yet is written by its first retry, although the bookkeeping
fails then. -/
theorem written_at_most_once_sample : ∃ s, Machine.Run State.fire (fun _ _ => True) State.init s ∧
    (s.wire.map fun w => w.job.id) = [0] ∧ s.attempts 0 = 2 ∧ (s.wire.map fun w => w.job.id).Nodup := by
  refine Machine.exists_run_and₂ [.connect 0, .becomeReady 0, .authorize 0 7, .assign 7 (some 0),
    .dispatch (.closePosition ⟨7, 3, 100, none⟩) 3 none .shared, .run .none, .authAnswer 0 7, .advance 1,
    .retry 0, .run ⟨false, false, true⟩] State.init ?_
  intro s hr _ _
  exact (written_at_most_once hr).1

end Copier.Dispatch
