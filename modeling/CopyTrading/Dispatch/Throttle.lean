import Mathlib

/-!
# Dispatch.Throttle — the FIFO token bucket (`engine/throttle.py`)

A request is granted from the burst pool or queues; a timer releases the queue from its head, one
request per whole token of the time elapsed since the watermark.  Times are rational seconds.
-/

namespace Copier.Dispatch

/-- `TokenBucket`, with waiters of any kind. -/
structure TokenBucket (ω : Type) where
  rate : { q : ℚ // 0 < q }
  capacity : ℚ
  /-- The idle burst pool. -/
  tokens : ℚ
  /-- The watermark: advances by `1 / rate` per release. -/
  last : ℚ
  waiters : List ω
  /-- When the scheduled drain is due. -/
  pendingCall : Option ℚ

namespace TokenBucket

variable {ω : Type}

/-- A bucket made at time `now`: full. -/
def new (rate : { q : ℚ // 0 < q }) (capacity now : ℚ) : TokenBucket ω :=
  ⟨rate, capacity, capacity, now, [], none⟩

/-- The pool refills only while nothing waits. -/
def refill (b : TokenBucket ω) (now : ℚ) : TokenBucket ω :=
  match b.waiters with
  | [] => { b with tokens := min b.capacity (b.tokens + (now - b.last) * b.rate.1), last := now }
  | _ :: _ => b

/-- `_schedule`. -/
def schedule (b : TokenBucket ω) (now : ℚ) : TokenBucket ω :=
  match b.pendingCall with
  | some _ => b
  | none => { b with pendingCall := some (now + max (b.last + 1 / b.rate.1 - now) 0) }

/-- `acquire`: whether the grant is immediate. -/
def acquire (b : TokenBucket ω) (now : ℚ) (w : ω) : TokenBucket ω × Bool :=
  let b := b.refill now
  if 1 ≤ b.tokens ∧ b.waiters.isEmpty then ({ b with tokens := b.tokens - 1 }, true)
  else (({ b with waiters := b.waiters ++ [w] }).schedule now, false)

/-- The loop of `_drain`: the waiters released and those left, and the watermark. -/
def release (rate : ℚ) : List ω → ℚ → ℚ → List ω × List ω × ℚ
  | [], last, _ => ([], [], last)
  | w :: ws, last, budget =>
    if 1 ≤ budget then
      let r := release rate ws (last + 1 / rate) (budget - 1)
      (w :: r.1, r.2.1, r.2.2)
    else ([], w :: ws, last)

/-- `_drain`: the waiters released, in order. -/
def drain (b : TokenBucket ω) (now : ℚ) : TokenBucket ω × List ω :=
  let r := release b.rate.1 b.waiters b.last ((now - b.last) * b.rate.1)
  let b' := { b with waiters := r.2.1, last := r.2.2, pendingCall := none }
  (if r.2.1.isEmpty then b' else b'.schedule now, r.1)

/-! ### What happens to the queue -/

@[simp] theorem refill_waiters (b : TokenBucket ω) (now : ℚ) : (b.refill now).waiters = b.waiters := by
  unfold refill
  split <;> simp_all

@[simp] theorem schedule_waiters (b : TokenBucket ω) (now : ℚ) :
    (b.schedule now).waiters = b.waiters := by
  unfold schedule
  split <;> rfl

/-- A grant finds an empty queue and leaves it so; otherwise the request joins at the end. -/
theorem acquire_cases (b : TokenBucket ω) (now : ℚ) (w : ω) :
    ((b.acquire now w).2 = true ∧ b.waiters = [] ∧ (b.acquire now w).1.waiters = []) ∨
      ((b.acquire now w).2 = false ∧ (b.acquire now w).1.waiters = b.waiters ++ [w]) := by
  unfold acquire
  simp only [refill_waiters]
  by_cases h : 1 ≤ (b.refill now).tokens ∧ b.waiters.isEmpty
  · rw [if_pos h]
    have he : b.waiters = [] := List.isEmpty_iff.1 h.2
    exact .inl ⟨rfl, he, by simp [he]⟩
  · rw [if_neg h]
    exact .inr ⟨rfl, by simp⟩

theorem release_append (rate : ℚ) (ws : List ω) (last budget : ℚ) :
    (release rate ws last budget).1 ++ (release rate ws last budget).2.1 = ws := by
  induction ws generalizing last budget with
  | nil => rfl
  | cons w ws ih =>
    rw [release]
    by_cases h : 1 ≤ budget
    · rw [if_pos h]
      simp only [List.cons_append, ih]
    · rw [if_neg h]
      rfl

/-- **First in, first out**: a drain releases a front part of the queue. -/
theorem drain_append (b : TokenBucket ω) (now : ℚ) :
    (b.drain now).2 ++ (b.drain now).1.waiters = b.waiters := by
  have h := release_append b.rate.1 b.waiters b.last ((now - b.last) * b.rate.1)
  unfold drain
  simp only
  split_ifs with he
  · exact h
  · rw [schedule_waiters]
    exact h

end TokenBucket

end Copier.Dispatch
