import CopyTrading.Lib.Machine

/-!
# Auth.Mpin — the MPIN lock (`mpin_core.py`)

Any number of `check_mpin` calls of one user, statement by statement.  A try is reserved by one `UPDATE` that
counts it, and verified afterwards; the fifth failure, and a call that finds the count used up without a lock,
write the lock and reset the count.  `now()` of the reservation is the time its statement began; the row may have
changed since.

The log has the tries that were reserved and verified, and the moments at which the lock expired.
-/

namespace Auth

open List

/-- `MPIN_MAX_ATTEMPTS`. -/
def mpinMaxAttempts : ℕ := 5

/-- `timedelta(minutes=MPIN_LOCK_MINUTES)`, in seconds. -/
def mpinLock : ℚ := 15 * 60

/-- The MPIN columns of a `users` row. -/
structure MpinRow where
  mpinHash : Option String
  failedAttempts : ℕ
  lockedUntil : Option ℚ
  deriving DecidableEq

namespace MpinRow

variable {row row' : MpinRow}

/-- `mpin_locked_until IS NULL OR mpin_locked_until <= now`. -/
def unlocked (row : MpinRow) (now : ℚ) : Bool := row.lockedUntil.all fun t => Decidable.decide (t ≤ now)

/-- The reservation, with what it returns. -/
def reserve (row : MpinRow) (now : ℚ) : MpinRow × Option (ℕ × String) :=
  match row.mpinHash with
  | some hash =>
    if row.unlocked now ∧ row.failedAttempts < mpinMaxAttempts then
      ({ row with failedAttempts := row.failedAttempts + 1 }, some (row.failedAttempts + 1, hash))
    else (row, none)
  | none => (row, none)

theorem reserve_some {now : ℚ} {attempts : ℕ} {hash : String}
    (h : row.reserve now = (row', some (attempts, hash))) :
    row.mpinHash = some hash ∧ row.unlocked now = true ∧ row.failedAttempts < mpinMaxAttempts ∧
      row' = { row with failedAttempts := row.failedAttempts + 1 } := by
  unfold reserve at h
  split at h
  · next hash' hhash =>
    split_ifs at h with hfree
    · obtain ⟨hrow, hret⟩ := Prod.mk.inj h
      obtain ⟨-, rfl⟩ := Prod.mk.inj (Option.some.inj hret)
      exact ⟨hhash, hfree.1, hfree.2, hrow.symm⟩
    · cases (Prod.mk.inj h).2
  · cases (Prod.mk.inj h).2

theorem reserve_none {now : ℚ} (h : row.reserve now = (row', none)) : row' = row := by
  unfold reserve at h
  split at h
  · split_ifs at h
    · cases (Prod.mk.inj h).2
    · exact (Prod.mk.inj h).1.symm
  · exact (Prod.mk.inj h).1.symm

/-- The `UPDATE` of `_lock`. -/
def lock (row : MpinRow) (till : ℚ) : MpinRow := { row with failedAttempts := 0, lockedUntil := some till }

/-- The `UPDATE` after a right MPIN. -/
def clear (row : MpinRow) : MpinRow := { row with failedAttempts := 0, lockedUntil := none }

end MpinRow

/-- What `check_mpin` returns. -/
inductive CheckAnswer where
  | right
  /-- 409 -/
  | notSet
  /-- 423 -/
  | locked (till : ℚ)
  /-- 401 -/
  | invalid (attemptsLeft : ℕ)
  deriving DecidableEq

/-- How far a call has got. -/
inductive CheckPhase where
  | started
  /-- The reservation has begun, at `now()`. -/
  | reserving (now : ℚ)
  | reserved (attempts : ℕ) (hash : String)
  /-- Nothing was reserved. -/
  | refused
  /-- `lock_state` is read, and the dummy hash verified. -/
  | looked (hash : Option String) (lockedUntil : Option ℚ)
  /-- About to write the lock. -/
  | locking (till : ℚ)
  /-- The MPIN was right. -/
  | clearing
  | done (answer : CheckAnswer)
  /-- The connection was lost. -/
  | gone
  deriving DecidableEq

/-- A try is reserved and not verified yet. -/
def CheckPhase.isReserved : CheckPhase → Bool
  | .reserved _ _ => true
  | _ => false

/-- One call of `check_mpin`. -/
structure Check where
  mpin : String
  /-- `datetime.now(timezone.utc)`, read first. -/
  now : ℚ
  phase : CheckPhase
  deriving DecidableEq

/-- The call has not returned. -/
def Check.busy (c : Check) : Bool :=
  match c.phase with
  | .done _ | .gone => false
  | _ => true

/-- What the log records. -/
inductive MpinEvent where
  /-- Call `i` has reserved a try; the lock was held, or not. -/
  | reserved (i : ℕ) (held : Bool)
  /-- Call `i` has verified against the real hash; the lock was held, or not. -/
  | verified (i : ℕ) (held : Bool)
  | expired
  deriving DecidableEq

/-- The user's row and the calls, numbered as they come. -/
structure Gate where
  row : MpinRow
  clock : ℚ
  calls : List Check
  /-- The latest first. -/
  log : List MpinEvent

/-- What happens next. -/
inductive GateAction where
  | call (mpin : String)
  /-- The next statement of call `i`. -/
  | run (i : ℕ)
  | drop (i : ℕ)
  | tick (now : ℚ)

namespace Gate

/-- The lock is held. -/
def held (s : Gate) : Bool := !s.row.unlocked s.clock

/-- Call `i` is at another point. -/
def goto (s : Gate) (i : ℕ) (c : Check) (phase : CheckPhase) : Gate :=
  { s with calls := s.calls.set i { c with phase := phase } }

section Fire

-- `verify_password`
variable (verify : String → String → Bool)

/-- The next statement of a call; a finished one has none. -/
def runCall (i : ℕ) (c : Check) (s : Gate) : Option Gate :=
  match c.phase with
  | .started => some (s.goto i c (.reserving s.clock))
  | .reserving now =>
    match s.row.reserve now with
    | (row, some (attempts, hash)) =>
      some { s.goto i c (.reserved attempts hash) with row := row, log := .reserved i s.held :: s.log }
    | (row, none) => some { s.goto i c .refused with row := row }
  | .reserved attempts hash =>
    let next :=
      if verify hash c.mpin then .clearing
      else if mpinMaxAttempts ≤ attempts then .locking (c.now + mpinLock)
      else .done (.invalid (mpinMaxAttempts - attempts))
    some { s.goto i c next with log := .verified i s.held :: s.log }
  | .refused => some (s.goto i c (.looked s.row.mpinHash s.row.lockedUntil))
  | .looked none _ => some (s.goto i c (.done .notSet))
  | .looked (some _) lockedUntil =>
    match lockedUntil with
    | none => some (s.goto i c (.locking (s.clock + mpinLock)))
    | some t =>
      -- by the clock of the database
      if t ≤ s.clock then some (s.goto i c (.locking (s.clock + mpinLock)))
      else some (s.goto i c (.done (.locked t)))
  | .locking till => some { s.goto i c (.done (.locked till)) with row := s.row.lock till }
  | .clearing => some { s.goto i c (.done .right) with row := s.row.clear }
  | .done _ | .gone => none

/-- One action; `none` where it cannot happen. -/
def fire (a : GateAction) (s : Gate) : Option Gate :=
  match a with
  | .call mpin => some { s with calls := s.calls ++ [⟨mpin, s.clock, .started⟩] }
  | .run i => s.calls[i]?.bind fun c => runCall verify i c s
  | .drop i => s.calls[i]?.map fun c => s.goto i c .gone
  | .tick now =>
    if s.clock ≤ now then
      let s' := { s with clock := now }
      some (if s.held && !s'.held then { s' with log := .expired :: s.log } else s')
    else none

/-- Every MPIN that is tried is wrong, and a call takes less than the lock. -/
def WrongAndShort : GateAction → Gate → Prop
  | .call mpin, s => ∀ hash ∈ s.row.mpinHash, verify hash mpin = false
  | .tick now, s => ∀ c ∈ s.calls, c.busy = true → now < c.now + mpinLock
  | _, _ => True

instance (a : GateAction) (s : Gate) : Decidable (WrongAndShort verify a s) := by
  cases a <;> (unfold WrongAndShort; infer_instance)

end Fire

/-! ### Tries and windows -/

end Gate

/-- A try was reserved. -/
def MpinEvent.isReserved : MpinEvent → Bool
  | .reserved _ _ => true
  | _ => false

/-- Call `i` has reserved a try. -/
def MpinEvent.reserves (i : ℕ) : MpinEvent → Bool
  | .reserved j _ => j = i
  | _ => false

/-- Call `i` has verified against the real hash. -/
def MpinEvent.verifies (i : ℕ) : MpinEvent → Bool
  | .verified j _ => j = i
  | _ => false

/-- A try was verified against the real hash. -/
def MpinEvent.isVerified : MpinEvent → Bool
  | .verified _ _ => true
  | _ => false

/-- The events of a kind since the lock last expired. -/
def sinceExpiry (kind : MpinEvent → Bool) (log : List MpinEvent) : ℕ := (log.takeWhile (· ≠ .expired)).countP kind

section

variable (kind : MpinEvent → Bool) (log : List MpinEvent)

@[simp] theorem sinceExpiry_expired : sinceExpiry kind (.expired :: log) = 0 := by simp [sinceExpiry]

theorem sinceExpiry_cons {e : MpinEvent} (he : e ≠ .expired) :
    sinceExpiry kind (e :: log) = sinceExpiry kind log + if kind e then 1 else 0 := by
  rw [sinceExpiry, takeWhile_cons_of_pos (by simpa using he), countP_cons, sinceExpiry]

@[simp] theorem sinceExpiry_reserved (i : ℕ) (held : Bool) : sinceExpiry kind (.reserved i held :: log) =
    sinceExpiry kind log + if kind (.reserved i held) then 1 else 0 := sinceExpiry_cons kind log nofun

@[simp] theorem sinceExpiry_verified (i : ℕ) (held : Bool) : sinceExpiry kind (.verified i held :: log) =
    sinceExpiry kind log + if kind (.verified i held) then 1 else 0 := sinceExpiry_cons kind log nofun

end

/-- The rule for what holds of every earlier log. -/
theorem forall_suffix_cons {P : List MpinEvent → Prop} {e : MpinEvent} {log : List MpinEvent} :
    (∀ past, past <:+ e :: log → P past) ↔ P (e :: log) ∧ ∀ past, past <:+ log → P past := by
  simp only [suffix_cons_iff, or_imp, forall_and, forall_eq]

/-- A window without an expiry is part of what was since the last one. -/
theorem countP_window_le {kind : MpinEvent → Bool} {window earlier : List MpinEvent} (h : .expired ∉ window) :
    window.countP kind ≤ sinceExpiry kind (window ++ earlier) := by
  unfold sinceExpiry
  rw [takeWhile_append_of_pos fun e he => by simpa using ne_of_mem_of_not_mem he h, countP_append]
  exact Nat.le_add_right _ _

namespace Gate

variable {verify : String → String → Bool} {s s' : Gate} {a : GateAction} {i : ℕ} {c : Check}
  {phase : CheckPhase}

/-- What holds of a call: its MPIN is wrong, it takes less than the lock, it verifies against the user's hash, and
the lock that it writes lies ahead. -/
structure Sound (verify : String → String → Bool) (hash : Option String) (clock : ℚ) (c : Check) : Prop where
  wrong : ∀ h ∈ hash, verify h c.mpin = false
  begun : c.now ≤ clock
  short : c.busy = true → clock < c.now + mpinLock
  reserving : ∀ now, c.phase = .reserving now → now ≤ clock
  reserved : ∀ k h, c.phase = .reserved k h → hash = some h
  locking : ∀ till, c.phase = .locking till → c.now + mpinLock ≤ till
  clearing : c.phase ≠ .clearing

/-- 1 if call `i` has a try that is not verified yet. -/
def pendingOf (s : Gate) (i : ℕ) : ℕ := if s.calls[i]?.any fun c => c.phase.isReserved then 1 else 0

theorem pendingOf_goto (hc : s.calls[i]? = some c) (phase : CheckPhase) (j : ℕ) :
    (s.goto i c phase).pendingOf j = if i = j then (if phase.isReserved then 1 else 0) else s.pendingOf j := by
  unfold pendingOf Gate.goto
  by_cases hj : i = j
  · subst hj
    simp [hc, getElem?_set_self']
  · rw [if_neg hj]
    simp only [getElem?_set_ne hj]

/-- While the lock is not held, every try since its expiry is counted in the row. -/
structure Guarded (verify : String → String → Bool) (s : Gate) : Prop where
  calls : ∀ c ∈ s.calls, Sound verify s.row.mpinHash s.clock c
  counted : s.held = false → sinceExpiry MpinEvent.isReserved s.log ≤ s.row.failedAttempts
  bounded : ∀ log, log <:+ s.log → sinceExpiry MpinEvent.isReserved log ≤ mpinMaxAttempts
  free : ∀ i, .reserved i true ∉ s.log
  once : ∀ i, s.log.countP (MpinEvent.verifies i) + s.pendingOf i ≤ s.log.countP (MpinEvent.reserves i)

theorem guarded_init (row : MpinRow) (clock : ℚ) : (Gate.mk row clock [] []).Guarded verify where
  calls := by simp
  counted := by simp [sinceExpiry]
  bounded log h := by simp [suffix_nil.1 h, sinceExpiry]
  free := by simp
  once := by simp [pendingOf]

/-- A busy call goes on; the lock that it is going to write lies ahead. -/
theorem Sound.goto {hash : Option String} {clock : ℚ} (h : Sound verify hash clock c) (hb : c.busy = true)
    (hr : ∀ now, phase = .reserving now → now ≤ clock) (hv : ∀ k h, phase = .reserved k h → hash = some h)
    (hl : ∀ till, phase = .locking till → c.now + mpinLock ≤ till) (hc : phase ≠ .clearing) :
    Sound verify hash clock { c with phase := phase } :=
  ⟨h.wrong, h.begun, fun _ => h.short hb, hr, hv, hl, hc⟩

theorem mem_goto {c' : Check} (h : c' ∈ (s.goto i c phase).calls) :
    c' ∈ s.calls ∨ c' = { c with phase := phase } :=
  mem_or_eq_of_mem_set h

section

variable (h : s.Guarded verify)
include h

/-- A call goes on without a try. -/
theorem Guarded.goto (hc : s.calls[i]? = some c)
    (hp : phase.isReserved = false) (hs : Sound verify s.row.mpinHash s.clock { c with phase := phase }) :
    (s.goto i c phase).Guarded verify where
  calls c' hc' := by
    rcases mem_goto hc' with hc' | rfl
    · exact h.calls c' hc'
    · exact hs
  counted := h.counted
  bounded := h.bounded
  free := h.free
  once j := by
    have hold := h.once j
    rw [pendingOf_goto hc, hp]
    show s.log.countP (MpinEvent.verifies j) + _ ≤ s.log.countP (MpinEvent.reserves j)
    rw [if_neg Bool.false_ne_true]
    split_ifs
    · omega
    · exact hold

section Reserve

variable (hc : s.calls[i]? = some c) {now : ℚ} {row : MpinRow} {attempts : ℕ} {hash : String}
  (hphase : c.phase = .reserving now) (hr : s.row.reserve now = (row, some (attempts, hash)))
include hc hphase hr

/-- A try is reserved only while the lock is not held: it was not when the statement began. -/
theorem Guarded.not_held : s.held = false := by
  have hnow := (h.calls c (mem_of_getElem? hc)).reserving now hphase
  obtain ⟨-, hun, -⟩ := MpinRow.reserve_some hr
  simp only [MpinRow.unlocked, Option.all_eq_true, decide_eq_true_eq] at hun
  simp only [held, MpinRow.unlocked, Bool.not_eq_false', Option.all_eq_true, decide_eq_true_eq]
  exact fun t ht => (hun t ht).trans hnow

/-- A try is reserved: the lock is not held. -/
theorem Guarded.reserve :
    ({ s.goto i c (.reserved attempts hash) with row := row, log := .reserved i s.held :: s.log } : Gate).Guarded
      verify := by
  have hcall := h.calls c (mem_of_getElem? hc)
  have hheld := h.not_held hc hphase hr
  obtain ⟨hhash, -, hlt, rfl⟩ := MpinRow.reserve_some hr
  have hcount := h.counted hheld
  refine ⟨fun c' hc' => ?_, fun _ => ?_, forall_suffix_cons.2 ⟨?_, h.bounded⟩, fun j => ?_, fun j => ?_⟩
  · rcases mem_goto hc' with hc' | rfl
    · exact h.calls c' hc'
    · refine hcall.goto (by simp [Check.busy, hphase]) nofun (fun k h' hp => ?_) nofun nofun
      cases hp
      exact hhash
  · rw [sinceExpiry_reserved]
    exact Nat.succ_le_succ hcount
  · rw [sinceExpiry_reserved]
    exact (Nat.succ_le_succ hcount).trans hlt
  · exact not_mem_cons_of_ne_of_not_mem (by simp [hheld]) (h.free j)
  · have hold := h.once j
    have hpend := pendingOf_goto hc (.reserved attempts hash) j
    show (MpinEvent.reserved i s.held :: s.log).countP (MpinEvent.verifies j) + (s.goto i c _).pendingOf j ≤ _
    rw [hpend, countP_cons_of_neg (by simp [MpinEvent.verifies]), countP_cons]
    simp only [MpinEvent.reserves, decide_eq_true_eq, CheckPhase.isReserved, if_true]
    split_ifs <;> omega

end Reserve

/-- A try is verified: it was reserved. -/
theorem Guarded.verified (hc : s.calls[i]? = some c)
    (hphase : c.phase.isReserved = true) (hp : phase.isReserved = false)
    (hs : Sound verify s.row.mpinHash s.clock { c with phase := phase }) :
    ({ s.goto i c phase with log := .verified i s.held :: s.log } : Gate).Guarded verify := by
  have hgoto := h.goto hc hp hs
  refine ⟨hgoto.calls, fun hheld => ?_, forall_suffix_cons.2 ⟨?_, h.bounded⟩, fun j => ?_, fun j => ?_⟩
  · rw [sinceExpiry_verified]
    exact h.counted hheld
  · rw [sinceExpiry_verified]
    exact h.bounded s.log (suffix_refl _)
  · exact not_mem_cons_of_ne_of_not_mem nofun (h.free j)
  · have hold := h.once j
    have hpend := pendingOf_goto hc phase j
    show (MpinEvent.verified i s.held :: s.log).countP (MpinEvent.verifies j) + (s.goto i c _).pendingOf j ≤ _
    rw [hpend, hp, countP_cons_of_neg (p := MpinEvent.reserves j) (by simp [MpinEvent.reserves]), countP_cons,
      if_neg Bool.false_ne_true]
    simp only [MpinEvent.verifies, decide_eq_true_eq]
    by_cases hij : i = j
    · have hmine : s.pendingOf j = 1 := by simp [pendingOf, ← hij, hc, hphase]
      rw [if_pos hij, if_pos hij]
      omega
    · rw [if_neg hij, if_neg hij]
      omega

/-- The lock is written, and holds from now on. -/
theorem Guarded.lock {till : ℚ} (htill : s.clock < till) :
    ({ s with row := s.row.lock till } : Gate).Guarded verify where
  calls := h.calls
  counted hheld := by simp [held, MpinRow.lock, MpinRow.unlocked, not_le.2 htill] at hheld
  bounded := h.bounded
  free := h.free
  once := h.once

theorem Guarded.runCall (hc : s.calls[i]? = some c)
    (hf : runCall verify i c s = some s') : s'.Guarded verify := by
  have hcall := h.calls c (mem_of_getElem? hc)
  -- a call that is going to write the lock does so before it ends
  have hahead : ∀ {till : ℚ}, c.busy = true → c.now + mpinLock ≤ till → s.clock < till := fun hb ht =>
    (hcall.short hb).trans_le ht
  unfold Gate.runCall at hf
  split at hf
  case h_1 hphase =>
    cases hf
    refine h.goto hc rfl (hcall.goto (by simp [Check.busy, hphase]) (fun now hnow => ?_) nofun nofun nofun)
    cases hnow
    exact le_rfl
  case h_2 now hphase =>
    split at hf
    · next row attempts hash hr =>
      cases hf
      exact h.reserve hc hphase hr
    · next row hr =>
      cases hf
      rw [MpinRow.reserve_none hr]
      exact h.goto hc rfl (hcall.goto (by simp [Check.busy, hphase]) nofun nofun nofun nofun)
  case h_3 attempts hash hphase =>
    have hwrong : verify hash c.mpin = false := hcall.wrong hash (hcall.reserved attempts hash hphase)
    cases hf
    have hbusy : c.busy = true := by simp [Check.busy, hphase]
    rw [hwrong, if_neg Bool.false_ne_true]
    split_ifs
    · refine h.verified hc (by simp [hphase, CheckPhase.isReserved]) rfl
        (hcall.goto hbusy nofun nofun (fun t ht => ?_) nofun)
      cases ht
      exact le_rfl
    · exact h.verified hc (by simp [hphase, CheckPhase.isReserved]) rfl (hcall.goto hbusy nofun nofun nofun nofun)
  case h_4 hphase =>
    cases hf
    exact h.goto hc rfl (hcall.goto (by simp [Check.busy, hphase]) nofun nofun nofun nofun)
  case h_5 hphase =>
    cases hf
    exact h.goto hc rfl (hcall.goto (by simp [Check.busy, hphase]) nofun nofun nofun nofun)
  case h_6 lockedUntil hphase =>
    have hbusy : c.busy = true := by simp [Check.busy, hphase]
    have hlock : Sound verify s.row.mpinHash s.clock { c with phase := .locking (s.clock + mpinLock) } := by
      refine hcall.goto hbusy nofun nofun (fun t ht => ?_) nofun
      cases ht
      have hbegun := hcall.begun
      linarith
    split at hf
    · cases hf
      exact h.goto hc rfl hlock
    · split_ifs at hf
      · cases hf
        exact h.goto hc rfl hlock
      · cases hf
        exact h.goto hc rfl (hcall.goto hbusy nofun nofun nofun nofun)
  case h_7 till hphase =>
    have hbusy : c.busy = true := by simp [Check.busy, hphase]
    cases hf
    have hgoto : (s.goto i c (.done (.locked till))).Guarded verify :=
      h.goto hc rfl (hcall.goto hbusy nofun nofun nofun nofun)
    exact hgoto.lock (hahead hbusy (hcall.locking till hphase))
  case h_8 hphase => exact absurd hphase hcall.clearing
  case h_9 => cases hf
  case h_10 => cases hf

/-- Time goes on; when the lock expires, the count starts at 0. -/
theorem Guarded.tick {now : ℚ} (hle : s.clock ≤ now)
    (hshort : ∀ c ∈ s.calls, c.busy = true → now < c.now + mpinLock) :
    (if s.held && !({ s with clock := now } : Gate).held then
      { s with clock := now, log := .expired :: s.log } else { s with clock := now } : Gate).Guarded verify := by
  have hcalls : ∀ c ∈ s.calls, Sound verify s.row.mpinHash now c := fun c hc => by
    have hcall := h.calls c hc
    exact { hcall with
      begun := hcall.begun.trans hle
      short := hshort c hc
      reserving := fun t ht => (hcall.reserving t ht).trans hle }
  split_ifs with hexp
  · have hzero := sinceExpiry_expired MpinEvent.isReserved s.log
    refine ⟨hcalls, fun _ => hzero.trans_le (Nat.zero_le _),
      forall_suffix_cons.2 ⟨hzero.trans_le (Nat.zero_le _), h.bounded⟩,
      fun j => not_mem_cons_of_ne_of_not_mem nofun (h.free j), fun j => ?_⟩
    · show (MpinEvent.expired :: s.log).countP _ + s.pendingOf j ≤ (MpinEvent.expired :: s.log).countP _
      rw [countP_cons_of_neg (by simp [MpinEvent.verifies]), countP_cons_of_neg (by simp [MpinEvent.reserves])]
      exact h.once j
  · refine ⟨hcalls, fun hheld => h.counted ?_, h.bounded, h.free, h.once⟩
    -- a lock that is not held now was not held before, or has expired
    rw [hheld] at hexp
    simpa using hexp

theorem Guarded.step (ha : WrongAndShort verify a s) (hf : fire verify a s = some s') :
    s'.Guarded verify := by
  cases a with
  | call mpin =>
    cases hf
    refine ⟨forall_mem_append.2 ⟨h.calls, forall_mem_singleton.2 ?_⟩, h.counted, h.bounded, h.free, fun j => ?_⟩
    · have hpos : (0 : ℚ) < mpinLock := by norm_num [mpinLock]
      exact ⟨ha, le_rfl, fun _ => lt_add_of_pos_right _ hpos, nofun, nofun, nofun, nofun⟩
    · refine le_trans (Nat.add_le_add_left ?_ _) (h.once j)
      unfold pendingOf
      dsimp only
      rcases lt_or_ge j s.calls.length with hj | hj
      · rw [getElem?_append_left hj]
      · rw [getElem?_append_right hj]
        cases hk : j - s.calls.length <;> simp [CheckPhase.isReserved]
  | run i =>
    obtain ⟨c, hc, hf⟩ := Option.bind_eq_some_iff.1 hf
    exact h.runCall hc hf
  | drop i =>
    obtain ⟨c, hc, rfl⟩ := Option.map_eq_some_iff.1 hf
    have hcall := h.calls c (mem_of_getElem? hc)
    exact h.goto hc rfl ⟨hcall.wrong, hcall.begun, nofun, nofun, nofun, nofun, nofun⟩
  | tick now =>
    unfold fire at hf
    dsimp only at hf
    by_cases hle : s.clock ≤ now
    · rw [if_pos hle] at hf
      cases hf
      exact h.tick hle ha
    · rw [if_neg hle] at hf
      cases hf

end

/-- For any number of calls with wrong MPINs, in any order of their statements, each shorter than the lock: at most
`MPIN_MAX_ATTEMPTS` tries are reserved between two expiries of the lock, none while it is held, and every
verification against the real hash is of a try that was reserved for it. -/
theorem tries_bounded {row : MpinRow} {clock : ℚ}
    (h : Machine.Run (fire verify) (WrongAndShort verify) ⟨row, clock, [], []⟩ s) :
    (∀ later window earlier, s.log = later ++ window ++ earlier → .expired ∉ window →
      window.countP MpinEvent.isReserved ≤ mpinMaxAttempts) ∧
      (∀ i, .reserved i true ∉ s.log) ∧
      ∀ i, s.log.countP (MpinEvent.verifies i) ≤ s.log.countP (MpinEvent.reserves i) := by
  have hg : s.Guarded verify := h.invariant (guarded_init row clock) fun _ _ _ ha hi hf => hi.step ha hf
  refine ⟨fun later window earlier hlog hw => ?_, hg.free, fun i => (Nat.le_add_right _ _).trans (hg.once i)⟩
  refine (countP_window_le hw).trans (hg.bounded (window ++ earlier) ⟨later, ?_⟩)
  rw [hlog, append_assoc]

/-! ### Verifications -/

/-- The tries that wait for their verification. -/
def waiting (s : Gate) : ℕ := s.calls.countP fun c => c.phase.isReserved

theorem waiting_goto (hc : s.calls[i]? = some c) (phase : CheckPhase) :
    (s.goto i c phase).waiting + (if c.phase.isReserved then 1 else 0) =
      s.waiting + if phase.isReserved then 1 else 0 := by
  obtain ⟨hi, rfl⟩ := List.getElem?_eq_some_iff.1 hc
  have hpos : (if s.calls[i].phase.isReserved then 1 else 0) ≤ s.waiting := by
    split_ifs with hr
    · exact countP_pos_iff.2 ⟨_, getElem_mem hi, hr⟩
    · exact Nat.zero_le _
  unfold waiting goto at *
  rw [countP_set hi]
  dsimp only
  omega

theorem waiting_goto_le (hc : s.calls[i]? = some c) (phase : CheckPhase) (hp : phase.isReserved = false) :
    (s.goto i c phase).waiting ≤ s.waiting := by
  have hw := waiting_goto hc phase
  rw [hp, if_neg Bool.false_ne_true] at hw
  omega

/-- The lock is written only while no try waits for its verification. -/
def Settled : GateAction → Gate → Prop
  | .run i, s => (s.calls[i]?.any fun c => c.phase matches .locking _) = true → s.waiting = 0
  | _, _ => True

instance (a : GateAction) (s : Gate) : Decidable (Settled a s) := by
  cases a <;> (unfold Settled; infer_instance)

/-- What one statement does. -/
theorem runCall_cases (hf : runCall verify i c s = some s') :
    (∃ phase, phase.isReserved = false ∧ s' = s.goto i c phase) ∨
      (∃ now row attempts hash, c.phase = .reserving now ∧ s.row.reserve now = (row, some (attempts, hash)) ∧
        s' = { s.goto i c (.reserved attempts hash) with row := row, log := .reserved i s.held :: s.log }) ∨
      (c.phase.isReserved = true ∧ ∃ phase, phase.isReserved = false ∧
        s' = { s.goto i c phase with log := .verified i s.held :: s.log }) ∨
      (∃ till, c.phase = .locking till ∧ s' = { s.goto i c (.done (.locked till)) with row := s.row.lock till }) ∨
      s' = { s.goto i c (.done .right) with row := s.row.clear } := by
  unfold Gate.runCall at hf
  split at hf
  case h_2 now hphase =>
    split at hf
    · next row attempts hash hr =>
        exact .inr (.inl ⟨now, row, attempts, hash, hphase, hr, (Option.some.inj hf).symm⟩)
    · next row hr =>
      rw [MpinRow.reserve_none hr] at hf
      exact .inl ⟨.refused, rfl, (Option.some.inj hf).symm⟩
  case h_3 attempts hash hphase =>
    refine .inr (.inr (.inl ⟨by rw [hphase]; rfl, _, ?_, (Option.some.inj hf).symm⟩))
    split_ifs <;> rfl
  case h_6 lockedUntil hphase =>
    split at hf
    · exact .inl ⟨_, rfl, (Option.some.inj hf).symm⟩
    · split_ifs at hf
      · exact .inl ⟨_, rfl, (Option.some.inj hf).symm⟩
      · exact .inl ⟨_, rfl, (Option.some.inj hf).symm⟩
  case h_7 till hphase => exact .inr (.inr (.inr (.inl ⟨till, hphase, (Option.some.inj hf).symm⟩)))
  case h_8 => exact .inr (.inr (.inr (.inr (Option.some.inj hf).symm)))
  case h_9 => cases hf
  case h_10 => cases hf
  all_goals exact .inl ⟨_, rfl, (Option.some.inj hf).symm⟩

/-- No try waits while the lock is held, so each is verified in the window in which it was reserved. -/
structure Orderly (s : Gate) : Prop where
  lock : s.held = true → s.waiting = 0
  now : sinceExpiry MpinEvent.isVerified s.log + s.waiting ≤ sinceExpiry MpinEvent.isReserved s.log
  past : ∀ log, log <:+ s.log → sinceExpiry MpinEvent.isVerified log ≤ sinceExpiry MpinEvent.isReserved log
  free : ∀ i, .verified i true ∉ s.log

section

variable (h : s.Orderly)
include h

/-- Fewer tries may wait, and no more of the lock be held. -/
theorem Orderly.of_le (hlog : s'.log = s.log) (hw : s'.waiting ≤ s.waiting)
    (hlock : s'.held = true → s'.waiting = 0) : s'.Orderly where
  lock := hlock
  now := hlog ▸ (Nat.add_le_add_left hw _).trans h.now
  past := hlog ▸ h.past
  free := hlog ▸ h.free

/-- An event is noted while the lock is not held. -/
theorem Orderly.note {e : MpinEvent} {calls : List Check} {row : MpinRow} {clock : ℚ}
    (hheld : (Gate.mk row clock calls (e :: s.log)).held = false)
    (hnow : sinceExpiry MpinEvent.isVerified (e :: s.log) + (Gate.mk row clock calls (e :: s.log)).waiting ≤
      sinceExpiry MpinEvent.isReserved (e :: s.log)) (he : ∀ i, .verified i true ≠ e) :
    (Gate.mk row clock calls (e :: s.log)).Orderly where
  lock hh := absurd (hheld.symm.trans hh) Bool.false_ne_true
  now := hnow
  past := forall_suffix_cons.2 ⟨(Nat.le_add_right _ _).trans hnow, h.past⟩
  free i := not_mem_cons_of_ne_of_not_mem (he i) (h.free i)

theorem Orderly.run (hg : s.Guarded verify) (hc : s.calls[i]? = some c) (ha : Settled (.run i) s)
    (hf : runCall verify i c s = some s') : s'.Orderly := by
  obtain ⟨phase, hp, rfl⟩ | ⟨now, row, attempts, hash, hphase, hr, rfl⟩ | ⟨hphase, phase, hp, rfl⟩ |
    ⟨till, hphase, rfl⟩ | rfl := runCall_cases hf
  · have hle := waiting_goto_le hc phase hp
    exact h.of_le rfl hle fun hheld => Nat.le_zero.1 (h.lock hheld ▸ hle)
  · have hheld := hg.not_held hc hphase hr
    obtain ⟨-, -, -, rfl⟩ := MpinRow.reserve_some hr
    have hw : (s.goto i c (.reserved attempts hash)).waiting = s.waiting + 1 := by
      simpa [hphase, CheckPhase.isReserved] using waiting_goto hc (.reserved attempts hash)
    have hold := h.now
    refine h.note hheld ?_ (by simp)
    show _ + (s.goto i c (.reserved attempts hash)).waiting ≤ _
    simp only [sinceExpiry_reserved, MpinEvent.isVerified, MpinEvent.isReserved, if_true, hw]
    simp only [Bool.false_eq_true, if_false]
    omega
  · have hpos : 0 < s.waiting := countP_pos_iff.2 ⟨c, mem_of_getElem? hc, hphase⟩
    have hheld : s.held = false := Bool.eq_false_iff.2 fun hh => hpos.ne' (h.lock hh)
    have hw := waiting_goto hc phase
    rw [hp, hphase, if_neg Bool.false_ne_true, if_pos rfl] at hw
    have hold := h.now
    refine h.note hheld ?_ (by simp [hheld])
    show _ + (s.goto i c phase).waiting ≤ _
    simp only [sinceExpiry_verified, MpinEvent.isVerified, MpinEvent.isReserved, if_true]
    simp only [Bool.false_eq_true, if_false]
    omega
  · have hzero : s.waiting = 0 := ha (by simp [hc, hphase])
    have hle := waiting_goto_le hc (.done (.locked till)) rfl
    exact h.of_le rfl hle fun _ => Nat.le_zero.1 (hzero ▸ hle)
  · refine h.of_le rfl (waiting_goto_le hc (.done .right) rfl) fun hheld => ?_
    simp [held, MpinRow.clear, MpinRow.unlocked] at hheld

theorem Orderly.step (hg : s.Guarded verify) (ha : Settled a s) (hf : fire verify a s = some s') : s'.Orderly := by
  cases a with
  | call mpin =>
    cases hf
    have hw : ({ s with calls := s.calls ++ [⟨mpin, s.clock, .started⟩] } : Gate).waiting = s.waiting := by
      simp [waiting, countP_append, CheckPhase.isReserved]
    exact h.of_le rfl hw.le fun hheld => hw.trans (h.lock hheld)
  | run i =>
    obtain ⟨c, hc, hf⟩ := Option.bind_eq_some_iff.1 hf
    exact h.run hg hc ha hf
  | drop i =>
    obtain ⟨c, hc, rfl⟩ := Option.map_eq_some_iff.1 hf
    have hle := waiting_goto_le hc .gone rfl
    exact h.of_le rfl hle fun hheld => Nat.le_zero.1 (h.lock hheld ▸ hle)
  | tick now =>
    unfold fire at hf
    dsimp only at hf
    split_ifs at hf with hle hexp
    · cases hf
      rw [Bool.and_eq_true, Bool.not_eq_true'] at hexp
      have hzero : s.waiting = 0 := h.lock hexp.1
      refine h.note hexp.2 ?_ (by simp)
      rw [sinceExpiry_expired, sinceExpiry_expired, Nat.zero_add]
      exact hzero.le
    · cases hf
      -- a lock that is held now was held before
      refine h.of_le rfl le_rfl fun hheld => h.lock ?_
      simp only [held, MpinRow.unlocked, Bool.not_eq_true', Option.all_eq_false] at hheld ⊢
      obtain ⟨t, ht, hlt⟩ := hheld
      simp only [decide_eq_false_iff_not, not_le] at hlt
      exact ⟨t, ht, by simpa using hle.trans_lt hlt⟩

end

/-- **The verifications are bounded** where the lock is written only while no reserved try waits for its
verification: at most `MPIN_MAX_ATTEMPTS` against the real hash between two expiries of the lock, and none while it
is held. -/
theorem verifications_bounded {row : MpinRow} {clock : ℚ}
    (h : Machine.Run (fire verify) (fun a s => WrongAndShort verify a s ∧ Settled a s) ⟨row, clock, [], []⟩ s) :
    (∀ later window earlier, s.log = later ++ window ++ earlier → .expired ∉ window →
      window.countP MpinEvent.isVerified ≤ mpinMaxAttempts) ∧ ∀ i, .verified i true ∉ s.log := by
  have hinit : (Gate.mk row clock [] []).Orderly :=
    ⟨fun _ => rfl, le_rfl, fun log hlog => by simp [suffix_nil.1 hlog, sinceExpiry], by simp⟩
  obtain ⟨hg, ho⟩ : s.Guarded verify ∧ s.Orderly :=
    h.invariant (P := fun s => s.Guarded verify ∧ s.Orderly) ⟨guarded_init row clock, hinit⟩
      fun _ _ _ ha hi hf => ⟨hi.1.step ha.1 hf, hi.2.step hi.1 ha.2 hf⟩
  refine ⟨fun later window earlier hlog hw => ?_, ho.free⟩
  have hsuffix : window ++ earlier <:+ s.log := ⟨later, by rw [hlog, append_assoc]⟩
  exact (countP_window_le hw).trans ((ho.past _ hsuffix).trans (hg.bounded _ hsuffix))

/-- Only "123456" is right. -/
def sampleVerify (hash mpin : String) : Bool := hash == "hash" && mpin == "123456"

/-- Five guesses at once, a sixth that is refused, the expiry of the lock, and one more guess. -/
theorem verifications_bounded_burst :
    ∃ s : Gate, s.log.countP MpinEvent.isVerified = 6 ∧ s.log.count .expired = 1 ∧
      (∀ later window earlier, s.log = later ++ window ++ earlier → .expired ∉ window →
        window.countP MpinEvent.isVerified ≤ mpinMaxAttempts) ∧ ∀ i, .verified i true ∉ s.log := by
  obtain ⟨s, hr, hsix, hone⟩ : ∃ s : Gate, Machine.Run (fire sampleVerify)
      (fun a s => WrongAndShort sampleVerify a s ∧ Settled a s) ⟨⟨some "hash", 0, none⟩, 0, [], []⟩ s ∧
      s.log.countP MpinEvent.isVerified = 6 ∧ s.log.count .expired = 1 :=
    Machine.exists_run [.call "000000", .call "000001", .call "000002", .call "000003", .call "000004",
      .run 0, .run 0, .run 1, .run 1, .run 2, .run 2, .run 3, .run 3, .run 4, .run 4, .run 4, .run 3,
        .run 2, .run 1,
      .run 0, .run 4, .call "000005", .run 5, .run 5, .run 5, .run 5, .tick 900, .call "000006", .run 6, .run 6,
      .run 6] _ (by decide +kernel)
  exact ⟨s, hsix, hone, verifications_bounded hr⟩

/-- Call 0 is slow: its try is the fifth, reserved 10 seconds before the lock that it writes ends.  The four tries
before it are not verified yet; five more are reserved before any of the nine is verified. -/
def lateVerifications : List GateAction :=
  [.call "000000", .tick 890, .call "000001", .call "000002", .call "000003", .call "000004",
    .run 1, .run 1, .run 2, .run 2, .run 3, .run 3, .run 4, .run 4, .run 0, .run 0, .run 0, .run 0, .tick 900,
    .call "000005", .call "000006", .call "000007", .call "000008", .call "000009",
    .run 5, .run 5, .run 6, .run 6, .run 7, .run 7, .run 8, .run 8, .run 9, .run 9,
    .run 1, .run 2, .run 3, .run 4, .run 5, .run 6, .run 7, .run 9, .run 9, .run 8]

/-- The four tries that are left verify after the lock has expired, beside five new ones, the last of them while
the lock is held again. -/
theorem verified_in_next_window :
    ∃ s : Gate, Machine.Run (fire sampleVerify) (WrongAndShort sampleVerify)
      ⟨⟨some "hash", 0, none⟩, 0, [], []⟩ s ∧
      (s.log.takeWhile (· ≠ .expired)).countP (fun e => e matches .verified ..) = 9 ∧
      .verified 8 true ∈ s.log :=
  Machine.exists_run lateVerifications _ (by decide +kernel)

end Gate

end Auth
