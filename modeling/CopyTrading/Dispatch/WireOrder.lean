import CopyTrading.Dispatch.AtMostOnce

/-!
# Dispatch.WireOrder — requests about one position or order reach the wire in the order of dispatch

The queues are first in, first out, but a retry is not: while it waits, a later request overtakes it.
`Action.InOrder` is the condition under which none does, and `Stands` the shape it keeps: the outstanding
requests of a position or order stand in one line, or there is only one of them.
-/

namespace Copier.Dispatch

open List State

variable {xs : List Job} {t : Task} {ts : List Task} {v : Verdict}

/-- The position or order a request is about. -/
def Job.key (j : Job) : ℕ × ℕ := (j.account, j.target)

/-- The ids of the requests about `k`. -/
def idsOf (k : ℕ × ℕ) (js : List Job) : List ℕ := (js.filter fun j => j.key = k).map Job.id

namespace State

variable (s : State) (k : ℕ × ℕ)

/-- Requests about `k` wait in this lane's queue only. -/
def Clear (lane : Lane) : Prop :=
  (∀ j ∈ s.deferred, j.key ≠ k) ∧ ∀ l, l ≠ lane → ∀ j ∈ (s.buckets l).waiters, j.key ≠ k

instance (lane : Lane) : Decidable (s.Clear k lane) := by
  unfold Clear
  infer_instance

end State

/-- The attempt is to be continued later. -/
def Verdict.defers (j : Job) : Verdict → Bool
  | .notAttempted => Decidable.decide (j.attempt < 3)
  | .pending _ => true
  | _ => false

/-- No request is dispatched while an earlier one about the same position or order is deferred or waits
in the other lane, and none is deferred while another one about it is outstanding. -/
def Action.InOrder (a : Action) (s : State) : Prop :=
  match a, s.todo with
  | .dispatch request target _ lane, _ => s.Clear (request.slaveAccountId, target) lane
  | .run f, t :: ts =>
    (s.verdict f t).defers t.job = true → ∀ j ∈ { s with todo := ts }.outstanding, j.key ≠ t.job.key
  | _, _ => True

instance (a : Action) (s : State) : Decidable (a.InOrder s) := by
  unfold Action.InOrder
  split <;> infer_instance

variable {s s₀ s' : State} {a : Action} {j : Job} {k : ℕ × ℕ} {l : List ℕ}

/-! ### The ids of a list -/

@[simp] theorem idsOf_nil : idsOf k [] = [] := rfl

@[simp] theorem idsOf_append (xs ys : List Job) : idsOf k (xs ++ ys) = idsOf k xs ++ idsOf k ys := by
  simp [idsOf]

theorem idsOf_cons_self (xs : List Job) : idsOf j.key (j :: xs) = j.id :: idsOf j.key xs := by
  simp [idsOf]

theorem idsOf_cons_ne (h : j.key ≠ k) (xs : List Job) : idsOf k (j :: xs) = idsOf k xs := by
  simp [idsOf, h]

theorem idsOf_eq_nil : idsOf k xs = [] ↔ ∀ x ∈ xs, x.key ≠ k := by
  simp [idsOf, filter_eq_nil_iff]

theorem idsOf_perm {ys : List Job} (h : xs.Perm ys) : (idsOf k xs).Perm (idsOf k ys) :=
  (h.filter _).map _

/-! ### The line of a position or order -/

/-- Where the outstanding requests about `k` are, with their ids in the order in which they will be
attempted: in the turn and the queue of one lane, or deferred, alone. -/
inductive Stands (k : ℕ × ℕ) (s : State) : List ℕ → Prop where
  | lane (lane : Lane) (l : List ℕ) : (∀ m, m ≠ lane → idsOf k (s.buckets m).waiters = []) →
    idsOf k s.deferred = [] → idsOf k s.turn ++ idsOf k (s.buckets lane).waiters = l → Stands k s l
  | deferred (i : ℕ) : idsOf k s.turn = [] → (∀ m, idsOf k (s.buckets m).waiters = []) →
    idsOf k s.deferred = [i] → Stands k s [i]

section

variable (h : Stands k s l)
include h

theorem Stands.eq_outstanding : l = idsOf k s.outstanding := by
  simp only [outstanding, idsOf_append]
  cases h with
  | lane lane l hm hd hl =>
    cases lane with
    | shared => simp [hd, hm .flatten (by decide), ← hl]
    | flatten => simp [hd, hm .shared (by decide), ← hl]
  | deferred i ht hm hd => simp [ht, hm, hd]

theorem Stands.congr (ht : idsOf k s'.turn = idsOf k s.turn)
    (hq : ∀ m, idsOf k (s'.buckets m).waiters = idsOf k (s.buckets m).waiters)
    (hd : idsOf k s'.deferred = idsOf k s.deferred) : Stands k s' l := by
  cases h with
  | lane lane l hm hd' hl =>
    exact .lane lane l (fun m h => (hq m).trans (hm m h)) (hd.trans hd') (by rw [ht, hq, hl])
  | deferred i ht' hm hd' =>
    exact .deferred i (ht.trans ht') (fun m => (hq m).trans (hm m)) (hd.trans hd')

section

variable (hs : s.todo = [])
include hs

/-- Requests go from a queue's head to the turn. -/
theorem Stands.released (lane : Lane)
    (hlane : idsOf k s'.turn ++ idsOf k (s'.buckets lane).waiters = idsOf k (s.buckets lane).waiters)
    (hq : ∀ m, m ≠ lane → idsOf k (s'.buckets m).waiters = idsOf k (s.buckets m).waiters)
    (hd : idsOf k s'.deferred = idsOf k s.deferred) : Stands k s' l := by
  have hturn : idsOf k s.turn = [] := by simp [turn, hs]
  by_cases hin : idsOf k (s.buckets lane).waiters = []
  · -- nothing about `k` is released
    rw [hin, append_eq_nil_iff] at hlane
    refine h.congr (hlane.1.trans hturn.symm) ?_ hd
    intro m
    by_cases hm : m = lane
    · rw [hm, hlane.2, hin]
    · exact hq m hm
  · cases h with
    | lane lane' l hm hd' hl =>
      have heq : lane = lane' := by
        by_contra hne
        exact hin (hm lane hne)
      subst heq
      rw [hturn, nil_append] at hl
      exact .lane lane l (fun m h => (hq m h).trans (hm m h)) (hd.trans hd') (hlane.trans hl)
    | deferred i ht hm hd' => exact absurd (hm lane) hin

/-- Deferred requests are called back. -/
theorem Stands.called_back
    (hq : ∀ m, idsOf k (s'.buckets m).waiters = idsOf k (s.buckets m).waiters)
    (hd : (idsOf k s'.turn ++ idsOf k s'.deferred).Perm (idsOf k s.deferred)) : Stands k s' l := by
  have hturn : idsOf k s.turn = [] := by simp [turn, hs]
  cases h with
  | lane lane l hm hd' hl =>
    rw [hd', perm_nil, append_eq_nil_iff] at hd
    refine .lane lane l (fun m h => (hq m).trans (hm m h)) hd.2 ?_
    rw [hd.1, hq, ← hl, hturn]
  | deferred i ht hm hd' =>
    rw [hd', perm_singleton, append_eq_singleton_iff] at hd
    rcases hd with ⟨ht', hd⟩ | ⟨ht', hd⟩
    · exact .deferred i ht' (fun m => (hq m).trans (hm m)) hd
    · refine .lane .shared [i] (fun m _ => (hq m).trans (hm m)) hd ?_
      rw [ht', hq, hm, append_nil]

/-- A request joins the line at its end. -/
theorem Stands.entered (he : Entered j s s') (hk : j.key = k)
    (hc : s.Clear k j.lane) : Stands k s' (l ++ [j.id]) := by
  have hturn : idsOf k s.turn = [] := by simp [turn, hs]
  have hdef : idsOf k s.deferred = [] := idsOf_eq_nil.2 hc.1
  have hother : ∀ m, m ≠ j.lane → idsOf k (s.buckets m).waiters = [] := fun m hm =>
    idsOf_eq_nil.2 (hc.2 m hm)
  have hl : l = idsOf k (s.buckets j.lane).waiters := by
    cases h with
    | lane lane l hm hd hl =>
      rw [hturn, nil_append] at hl
      by_cases h : lane = j.lane
      · rw [← hl, h]
      · rw [← hl, hother lane h, hm j.lane (Ne.symm h)]
    | deferred i ht hm hd => simp [hdef] at hd
  refine .lane j.lane _ ?_ ?_ ?_
  · intro m hm
    rw [he.other m hm, hother m hm]
  · rw [← hdef, State.deferred, State.deferred, he.handoffs, he.retries]
  · rw [← idsOf_append, he.last, idsOf_append, hl, ← hk, idsOf_cons_self, idsOf_nil]

/-- A request about something else joins a queue. -/
theorem Stands.entered_ne (he : Entered j s s') (hk : j.key ≠ k) :
    Stands k s' l := by
  refine h.released hs j.lane ?_ (fun m hm => by rw [he.other m hm]) ?_
  · rw [← idsOf_append, he.last, idsOf_append, idsOf_cons_ne hk, idsOf_nil, append_nil]
  · rw [State.deferred, State.deferred, he.handoffs, he.retries]

/-- A retry of the only request about `k`. -/
theorem Stands.retried {i : ℕ} {r : Retry}
    (hi : s.retries[i]? = some r) (he : Entered r.job { s with retries := s.retries.eraseIdx i } s') :
    Stands k s' l := by
  have hp := idsOf_perm (k := k) (deferred_eraseRetry hi)
  by_cases hk : r.job.key = k
  · subst hk
    rw [idsOf_cons_self] at hp
    cases h with
    | lane lane l hm hd hl => simp [hd] at hp
    | deferred n ht hm hd =>
      rw [hd, perm_singleton, cons.injEq] at hp
      have hempty : Stands r.job.key { s with retries := s.retries.eraseIdx i } [] :=
        .lane .shared [] (fun m _ => hm m) hp.2 (by
          show idsOf r.job.key s.turn ++ _ = []
          rw [ht, nil_append]
          exact hm .shared)
      have hclear : { s with retries := s.retries.eraseIdx i }.Clear r.job.key r.job.lane :=
        ⟨idsOf_eq_nil.1 hp.2, fun m _ => idsOf_eq_nil.1 (hm m)⟩
      have hres := hempty.entered hs he rfl hclear
      rwa [nil_append, hp.1] at hres
  · rw [idsOf_cons_ne hk] at hp
    have hsame : Stands k { s with retries := s.retries.eraseIdx i } l := by
      refine h.called_back hs (fun _ => rfl) ?_
      show (idsOf k s.turn ++ _).Perm _
      simpa [turn, hs] using hp
    exact hsame.entered_ne hs he hk

end

end

/-! ### One callback -/

/-- The line without its head. -/
theorem Stands.tail (hs : s.todo = t :: ts)
    (h : Stands t.job.key s l) : ∃ l', l = t.job.id :: l' ∧ Stands t.job.key { s with todo := ts } l' := by
  have hturn : idsOf t.job.key s.turn = t.job.id :: idsOf t.job.key (ts.map Task.job) := by
    rw [turn, hs, map_cons, idsOf_cons_self]
  cases h with
  | lane lane l hm hd hl =>
    rw [hturn, cons_append] at hl
    exact ⟨_, hl.symm, .lane lane _ hm hd rfl⟩
  | deferred i ht hm hd =>
    rw [hturn] at ht
    cases ht

theorem Stands.skip (hs : s.todo = t :: ts) (h : Stands k s l)
    (hk : t.job.key ≠ k) : Stands k { s with todo := ts } l := by
  refine h.congr ?_ (fun _ => rfl) rfl
  rw [turn, turn, hs, map_cons, idsOf_cons_ne hk]

/-- Everything about `k` in the order in which it was and will be written, newest first. -/
def Ordered (k : ℕ × ℕ) (s : State) : Prop :=
  ∃ l, Stands k s l ∧ (l.reverse ++ idsOf k (s.wire.map Sent.job)).Pairwise (· > ·)

theorem Ordered.init (k : ℕ × ℕ) : Ordered k State.init :=
  ⟨[], .lane .shared [] (fun m _ => by cases m <;> rfl) rfl rfl, Pairwise.nil⟩

theorem Ordered.run_ne (h : Ordered k s) (hs : s.todo = t :: ts) (hk : t.job.key ≠ k)
    (hset : Settled { s with todo := ts } t.job v s') : Ordered k s' := by
  obtain ⟨l, hl, hp⟩ := h
  have hl' := hl.skip hs hk
  cases hset with
  | written c n statuses =>
    refine ⟨l, hl'.congr rfl (fun _ => rfl) rfl, ?_⟩
    show (l.reverse ++ idsOf k (t.job :: s.wire.map Sent.job)).Pairwise (· > ·)
    rwa [idsOf_cons_ne hk]
  | retried hlt =>
    refine ⟨l, hl'.congr rfl (fun _ => rfl) ?_, hp⟩
    have hk' : Job.key { t.job with attempt := t.job.attempt + 1 } ≠ k := hk
    simp [State.deferred, idsOf_cons_ne hk']
  | abandoned v statuses hv => exact ⟨l, hl'.congr rfl (fun _ => rfl) rfl, hp⟩
  | waiting c =>
    refine ⟨l, hl'.congr rfl (fun _ => rfl) ?_, hp⟩
    simp [State.deferred, idsOf_cons_ne hk]

theorem Ordered.run_self (h : Ordered t.job.key s)
    (hs : s.todo = t :: ts) (hset : Settled { s with todo := ts } t.job v s')
    (hok : v.defers t.job = true → ∀ j ∈ { s with todo := ts }.outstanding, j.key ≠ t.job.key) :
    Ordered t.job.key s' := by
  obtain ⟨l, hl, hp⟩ := h
  obtain ⟨l', rfl, hl'⟩ := hl.tail hs
  rw [reverse_cons, append_assoc, singleton_append] at hp
  have halone : v.defers t.job = true → l' = [] ∧ idsOf t.job.key (ts.map Task.job) = [] ∧
      (∀ m, idsOf t.job.key (s.buckets m).waiters = []) ∧ idsOf t.job.key s.deferred = [] := by
    intro hv
    have hall := idsOf_eq_nil.2 (hok hv)
    simp only [outstanding, idsOf_append, append_eq_nil_iff] at hall
    obtain ⟨⟨⟨ht, hsh⟩, hfl⟩, hd⟩ := hall
    have hq : ∀ m, idsOf t.job.key (s.buckets m).waiters = [] := fun m => by
      cases m
      · exact hsh
      · exact hfl
    refine ⟨?_, ht, hq, hd⟩
    cases hl' with
    | lane lane l hm hd' hl => exact hl.symm.trans (append_eq_nil_iff.2 ⟨ht, hq lane⟩)
    | deferred i ht' hm hd' => cases hd.symm.trans hd'
  cases hset with
  | written c n statuses =>
    refine ⟨l', hl'.congr rfl (fun _ => rfl) rfl, ?_⟩
    show (l'.reverse ++ idsOf t.job.key (t.job :: s.wire.map Sent.job)).Pairwise (· > ·)
    rwa [idsOf_cons_self]
  | abandoned v statuses hv =>
    refine ⟨l', hl'.congr rfl (fun _ => rfl) rfl, hp.sublist ?_⟩
    exact (sublist_cons_self _ _).append_left _
  | retried hlt =>
    obtain ⟨rfl, ht, hq, hd⟩ := halone (by simp [Verdict.defers, hlt])
    refine ⟨[t.job.id], .deferred _ ht hq ?_, hp⟩
    rw [State.deferred, idsOf_append] at hd
    obtain ⟨hd₁, hd₂⟩ := append_eq_nil_iff.1 hd
    have hid := idsOf_cons_self (j := { t.job with attempt := t.job.attempt + 1 }) []
    simp only [State.deferred, map_append, map_cons, map_nil, idsOf_append, hd₁, hd₂]
    exact hid
  | waiting c =>
    obtain ⟨rfl, ht, hq, hd⟩ := halone rfl
    refine ⟨[t.job.id], .deferred _ ht hq ?_, hp⟩
    rw [State.deferred, idsOf_append] at hd
    obtain ⟨hd₁, hd₂⟩ := append_eq_nil_iff.1 hd
    simp only [State.deferred, map_append, map_cons, map_nil, idsOf_append, hd₁, hd₂]
    rw [idsOf_cons_self]
    rfl

/-! ### Whole runs -/

theorem mem_tally_of_outstanding (h : j ∈ s.outstanding) : ∃ e ∈ s.tally, e.1 = j.id := by
  simp only [outstanding, State.deferred, mem_append] at h
  simp only [tally, queued, Multiset.mem_add, Multiset.mem_map]
  rcases h with ((h | h) | h) | h | h
  · exact ⟨j.tried, .inl ⟨j, by simp [h], rfl⟩, rfl⟩
  · exact ⟨j.tried, .inl ⟨j, by simp [h], rfl⟩, rfl⟩
  · exact ⟨j.tried, .inl ⟨j, by simp [h], rfl⟩, rfl⟩
  · exact ⟨j.tried, .inl ⟨j, by simp [mem_map.1 h], rfl⟩, rfl⟩
  · obtain ⟨r, hr, rfl⟩ := mem_map.1 h
    exact ⟨r.tried, .inr ⟨r, hr, rfl⟩, rfl⟩

theorem mem_tally_of_wire {w : Sent} (h : w ∈ s.wire) : w.job.tried ∈ s.tally := by
  simp only [tally, Multiset.mem_add, Multiset.mem_map]
  exact .inl ⟨w.job, by simp [mem_map_of_mem (f := Sent.job) h], rfl⟩

/-- A new request's id is above all others. -/
theorem Counted.above (hc : Counted s) {i : ℕ}
    (hi : i ∈ idsOf k s.outstanding ∨ i ∈ idsOf k (s.wire.map Sent.job)) : i < s.nextJob := by
  simp only [idsOf, mem_map, mem_filter] at hi
  rcases hi with ⟨j, ⟨hj, -⟩, rfl⟩ | ⟨j, ⟨⟨w, hw, rfl⟩, -⟩, rfl⟩
  · obtain ⟨e, he, hid⟩ := mem_tally_of_outstanding hj
    rw [← hid]
    exact (hc.made e he).1
  · exact (hc.made _ (mem_tally_of_wire hw)).1

theorem Ordered.turned (h : Ordered k s) (hc : Counted s) (hs : s.todo = []) (ht : Turned s a s')
    (hok : a.InOrder s) : Ordered k s' := by
  obtain ⟨l, hl, hp⟩ := h
  cases ht with
  | dispatch request target org lane s' he =>
    have hl' : Stands k { s with nextJob := s.nextJob + 1 } l := hl.congr rfl (fun _ => rfl) rfl
    by_cases hk : (request.slaveAccountId, target) = k
    · refine ⟨l ++ [s.nextJob], hl'.entered hs he hk ?_, ?_⟩
      · subst hk
        exact hok
      · rw [he.wire, reverse_append, reverse_singleton, singleton_append,
          cons_append, pairwise_cons]
        refine ⟨?_, hp⟩
        intro i hi
        rw [mem_append, mem_reverse, hl.eq_outstanding] at hi
        exact hc.above hi
    · exact ⟨l, hl'.entered_ne hs he hk, he.wire ▸ hp⟩
  | retry i r s' hi he => exact ⟨l, hl.retried hs hi he, he.wire ▸ hp⟩
  | drain lane b js h =>
    refine ⟨l, hl.released hs lane ?_ ?_ rfl, hp⟩
    · simp only [turn, map_send, Function.update_self]
      rw [← idsOf_append, h]
    · intro m hm
      simp only [Function.update_of_ne hm]
  | timeout i h hi =>
    refine ⟨l, hl.called_back hs (fun _ => rfl) ?_, hp⟩
    rw [← idsOf_append]
    exact idsOf_perm (deferred_eraseHandoff hi _)
  | settled a s₀ c task h₀ htask =>
    have hd : s₀.deferred = s.deferred := by rw [State.deferred, State.deferred, h₀.handoffs, h₀.retries]
    refine ⟨l, hl.called_back hs ?_ ?_, ?_⟩
    · intro m
      show idsOf k (s₀.buckets m).waiters = _
      rw [h₀.buckets]
    · rw [← idsOf_append, ← hd]
      exact idsOf_perm (deferred_settleHandoffs c htask)
    · show (l.reverse ++ idsOf k (s₀.wire.map Sent.job)).Pairwise (· > ·)
      rwa [h₀.wire]
  | still a s' h =>
    refine ⟨l, hl.congr ?_ (fun m => by rw [h.buckets]) ?_, h.wire ▸ hp⟩
    · rw [turn, turn, h.todo]
    · rw [State.deferred, State.deferred, h.handoffs, h.retries]

theorem Ordered.fire (h : Ordered k s) (hc : Counted s) (hok : a.InOrder s)
    (hf : State.fire a s = some s') : Ordered k s' := by
  rcases fire_cases hf with ⟨f, t, ts, rfl, hs, hset⟩ | ⟨hs, hst⟩
  · by_cases hk : t.job.key = k
    · subst hk
      refine h.run_self hs hset ?_
      unfold Action.InOrder at hok
      rw [hs] at hok
      exact hok
    · exact h.run_ne hs hk hset
  · exact h.turned hc hs (start_turned hs hst) hok

/-- **The order of dispatch is the order on the wire**, in every run in which no request about a position
or order is deferred beside another one about it: of two that were written the later one has the
larger id, and what is still outstanding is newer than all of them. -/
theorem wire_in_dispatch_order (h : Machine.Run State.fire Action.InOrder State.init s) :
    s.wire.Pairwise (fun w w' => w.job.key = w'.job.key → w'.job.id < w.job.id) ∧
      ∀ w ∈ s.wire, ∀ j ∈ s.outstanding, j.key = w.job.key → w.job.id < j.id := by
  obtain ⟨-, ho⟩ : Counted s ∧ ∀ k, Ordered k s :=
    h.invariant (P := fun s => Counted s ∧ ∀ k, Ordered k s) ⟨Counted.init, Ordered.init⟩
      fun _ _ _ hok hi hf => ⟨hi.1.fire hf, fun k => (hi.2 k).fire hi.1 hok hf⟩
  constructor
  · refine pairwise_iff_forall_sublist.2 ?_
    intro w w' hsub hk
    obtain ⟨l, -, hp⟩ := ho w.job.key
    have hpair := (pairwise_append.1 hp).2.1
    rw [idsOf, pairwise_map, pairwise_filter, pairwise_map] at hpair
    exact pairwise_iff_forall_sublist.1 hpair hsub (by simp) (by simp [hk])
  · intro w hw j hj hk
    obtain ⟨l, hl, hp⟩ := ho w.job.key
    refine (pairwise_append.1 hp).2.2 j.id ?_ w.job.id ?_
    · rw [mem_reverse, hl.eq_outstanding]
      exact mem_map_of_mem (mem_filter.2 ⟨hj, by simp [hk]⟩)
    · exact mem_map_of_mem (mem_filter.2 ⟨mem_map_of_mem hw, by simp⟩)

/-- Two amends of one position, the first of which needs a retry. -/
theorem wire_in_dispatch_order_sample : ∃ s, Machine.Run State.fire Action.InOrder State.init s ∧
    (s.wire.map fun w => (w.job.key, w.job.id)) = [((7, 3), 1), ((7, 3), 0)] ∧
    s.wire.Pairwise (fun w w' => w.job.key = w'.job.key → w'.job.id < w.job.id) := by
  refine Machine.exists_run_and [.connect 0, .becomeReady 0, .authorize 0 7, .assign 7 (some 0),
    .dispatch (.amendPositionSLTP ⟨7, 3, ⟨some 1, none⟩⟩) 3 none .shared, .run .none, .authAnswer 0 7, .advance 1,
    .retry 0, .run .none, .dispatch (.amendPositionSLTP ⟨7, 3, ⟨some 2, none⟩⟩) 3 none .shared, .run .none] init ?_
  intro s hr _
  exact (wire_in_dispatch_order hr).1

/-- **A retry loses its place**: the amend to stop 1 waits a second for its retry, the amend to stop 2 is
dispatched and written meanwhile, and the position is left with the stop of the older one. -/
theorem retry_overtaken : ∃ s, Machine.Run State.fire (fun _ _ => True) State.init s ∧
    (s.wire.map fun w => (w.job.id, w.job.request)) =
      [(0, .amendPositionSLTP ⟨7, 3, ⟨some 1, none⟩⟩), (1, .amendPositionSLTP ⟨7, 3, ⟨some 2, none⟩⟩)] :=
  Machine.exists_run [.connect 0, .becomeReady 0, .authorize 0 7, .assign 7 (some 0),
      .dispatch (.amendPositionSLTP ⟨7, 3, ⟨some 1, none⟩⟩) 3 none .shared, .run .none,
      .authAnswer 0 7, .advance (1 / 2),
      .dispatch (.amendPositionSLTP ⟨7, 3, ⟨some 2, none⟩⟩) 3 none .shared, .run .none,
      .advance (1 / 2), .retry 0, .run .none]
    init (by decide +kernel)

end Copier.Dispatch
