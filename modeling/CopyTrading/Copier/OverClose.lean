import CopyTrading.Copier.Sequential

/-!
# Copier.OverClose — closes that overtake their confirmations

A close's volume is the master's share of what the row says, and the row is reduced only when the
close is confirmed.  Where every close of the master finds the copy's earlier closes confirmed, the
copier never asks for more than the copy held and never closes more than the master's share; a close
that comes earlier takes its share of volume that is already being closed.
-/

namespace Copier

open Option

/-- Everything the account was ever asked to close of position `π`. -/
def Account.closeRequested (x : Account) (π : ℕ) : ℕ := closeVolume π (x.log.map Sent.intent)

/-- What the account holds in position `π`. -/
def Account.positionVolume (x : Account) (π : ℕ) : ℕ :=
  ((x.positions.find π).map BrokerPosition.volume).getD 0

/-- No close of the copy's position is in flight, and no report that would change its row. -/
def Account.Confirmed (x : Account) (a : ℕ) (m : Mapping) : Prop :=
  (∀ r ∈ x.reports, r.hits a m = false) ∧ ∀ π ∈ m.slavePositionId, closeVolume π x.requests = 0

instance (x : Account) (a : ℕ) (m : Mapping) : Decidable (x.Confirmed a m) :=
  inferInstanceAs (Decidable (_ ∧ _))

/-- Copy `c` of position `p` is booked with volume `S` in slave position `π`, nothing of it in flight. -/
def Sys.Holding (s : Sys) (a p : ℕ) (c : ClientOrderId) (π S : ℕ) : Prop :=
  (∀ i ∈ (s.accounts a).requests, clientOrderIdFor i ≠ some c) ∧
    ∃ m ∈ s.service.mappings.rows, m.clientOrderId = c ∧ m.slaveAccountId = a ∧
      m.masterPositionId = some p ∧ m.status = .active ∧ m.held = some ⟨π, S⟩ ∧
      (s.accounts a).Confirmed a m

instance (s : Sys) (a p : ℕ) (c : ClientOrderId) (π S : ℕ) : Decidable (s.Holding a p c π S) :=
  inferInstanceAs (Decidable (_ ∧ ∃ m ∈ s.service.mappings.rows, _))

/-- The master only closes the position; the slaves do anything. -/
def Action.OnlyCloses (p : ℕ) : Action → Prop
  | .master (.positionClosed e) => e.positionId = p
  | .master _ => False
  | _ => True

instance (p : ℕ) : ∀ act : Action, Decidable (act.OnlyCloses p)
  | .master (.positionClosed e) => inferInstanceAs (Decidable (e.positionId = p))
  | .master (.positionOpened _) => isFalse id
  | .master (.positionSLTPAmended _) => isFalse id
  | .master (.pendingPlaced _) => isFalse id
  | .master (.pendingReplaced _) => isFalse id
  | .master (.pendingCancelled _) => isFalse id
  | .master (.pendingFilled _ _) => isFalse id
  | .master (.rejected _) => isFalse id
  | .execute _ _ => isTrue trivial
  | .trigger _ _ _ => isTrue trivial
  | .deliver _ => isTrue trivial

/-- The same, and every close finds the earlier closes of the copy confirmed. -/
def Action.ClosesConfirmed (p a : ℕ) (c : ClientOrderId) (act : Action) (s : Sys) : Prop :=
  act.OnlyCloses p ∧ (act.ofSlave = false → ∀ m ∈ s.service.mappings.rows, m.clientOrderId = c →
    (s.accounts a).Confirmed a m)

instance (p a : ℕ) (c : ClientOrderId) (act : Action) (s : Sys) :
    Decidable (act.ClosesConfirmed p a c s) :=
  inferInstanceAs (Decidable (_ ∧ (_ → ∀ m ∈ s.service.mappings.rows, _ → _)))

/-! ### The copy's position while it is closed -/

/-- What is asked of position `π` and not executed yet is there, what was asked and what is left make
`T`, and what is left is at least the share `m / V` of `S`. -/
structure Draining (c : ClientOrderId) (π T S V m : ℕ) (x : Account) : Prop where
  noOpen : ∀ i ∈ x.requests, clientOrderIdFor i ≠ some c
  position : ∃ q ∈ x.positions.rows, q.id = π ∧ q.clientOrderId = c ∧
    closeVolume π x.requests ≤ q.volume ∧
    x.closeRequested π + (q.volume - closeVolume π x.requests) = T ∧
    S * m ≤ (q.volume - closeVolume π x.requests) * V

section Moves

variable {x x' : Account} {i : SlaveIntent} {rest sent : List SlaveIntent} {c : ClientOrderId}
  {q : BrokerPosition} {π T S V m : ℕ}

theorem closeVolume_reverse (is : List SlaveIntent) : closeVolume π is.reverse = closeVolume π is := by
  unfold closeVolume
  rw [List.map_reverse, List.sum_reverse]

theorem closeRequested_receive (s : Mappings) :
    (x.receive s sent).closeRequested π = x.closeRequested π + closeVolume π sent := by
  simp only [Account.closeRequested, Account.receive, List.map_append, closeVolume_append,
    List.map_reverse, List.map_map]
  rw [closeVolume_reverse, Nat.add_comm]
  congr 2
  exact List.map_id' sent

theorem Draining.execute (h : Draining c π T S V m x) (hr : x.requests = i :: rest)
    (hm : Move { x with requests := rest } (some i) x') : Draining c π T S V m x' := by
  obtain ⟨q, hq, rfl, rfl, hle, hT, hS⟩ := h.position
  rw [hr, closeVolume_cons] at hle hT hS
  have hi0 := h.noOpen i (by rw [hr]; exact List.mem_cons_self)
  have hq' : Account.subVolume (i.closes q.id) q ∈ x'.positions.rows.filter fun b =>
    b.clientOrderId = q.clientOrderId := by
    rw [hm.copies hi0]
    exact List.mem_map_of_mem (List.mem_filter.2 ⟨hq, decide_eq_true rfl⟩)
  refine ⟨fun j hj => ?_, _, List.mem_of_mem_filter hq', rfl, rfl, ?_⟩
  · rw [hm.requests] at hj
    exact h.noOpen j (by rw [hr]; exact List.mem_cons_of_mem i hj)
  · have hlog : x'.closeRequested q.id = x.closeRequested q.id := by
      rw [Account.closeRequested, hm.log]
      rfl
    have hleft : q.volume - (i.closes q.id + closeVolume q.id rest) =
        q.volume - i.closes q.id - closeVolume q.id rest := by omega
    rw [hm.requests, hlog]
    rw [hleft] at hT hS
    exact ⟨by show closeVolume q.id rest ≤ q.volume - i.closes q.id; omega, hT, hS⟩

theorem Draining.trigger (h : Draining c π T S V m x) (hm : Move x none x') :
    Draining c π T S V m x' := by
  obtain ⟨q, hq, rfl, rfl, hle, hT, hS⟩ := h.position
  cases hm with
  | trigger q₀ π hq₀ hs hf => exact ⟨h.noOpen, q, Table.mem_insert_of_mem hq, rfl, rfl, hle, hT, hS⟩

theorem Draining.receive (h : Draining c π T S V m x) (s : Mappings) (hs : Amends sent) :
    Draining c π T S V m (x.receive s sent) := by
  obtain ⟨q, hq, rfl, rfl, hle, hT, hS⟩ := h.position
  have hreq : closeVolume q.id (x.receive s sent).requests = closeVolume q.id x.requests := by
    show closeVolume q.id (x.requests ++ sent) = _
    rw [closeVolume_append, closeVolume_amends hs, Nat.add_zero]
  refine ⟨fun i hi => ?_, q, hq, rfl, rfl, ?_⟩
  · rcases List.mem_append.1 hi with hi | hi
    · exact h.noOpen i hi
    · obtain ⟨k, rfl⟩ := hs i hi
      simp [clientOrderIdFor]
  · rw [hreq, closeRequested_receive, closeVolume_amends hs, Nat.add_zero]
    exact ⟨hle, hT, hS⟩

end Moves

/-! ### A close of the master -/

section Close

variable {fleet : Fleet} {s s₀ s' : Sys} {act : Action} {a p : ℕ} {c : ClientOrderId} {m : Mapping}
  {π T S V : ℕ}

theorem settle_unhit {rs : List Report} (h : ∀ r ∈ rs, r.hits a m = false) : settle a rs m = m := by
  induction rs with
  | nil => rfl
  | cons r rs ih =>
    have hself : bookRow a r m = m := if_neg (by rw [h r List.mem_cons_self]; simp)
    rw [settle_cons, hself]
    exact ih fun r' hr' => h r' (List.mem_cons_of_mem r hr')

/-- A row that no report in flight changes says what the broker holds. -/
theorem Consistent.stage_of_unhit (hc : Consistent fleet s) (hca : c.account = some a)
    (hm : s.service.mappings.find c = some m) (h : ∀ r ∈ (s.accounts a).reports, r.hits a m = false) :
    Stage (s.accounts a) c m := by
  have hst := (hc.booked a).row c m hca hm
  rwa [settle_unhit h] at hst

/-- An active row on a position says its volume. -/
theorem Stage.volume_of_held {x : Account} {v : ℕ} (h : Stage x c m) (hw : m.held = some ⟨π, v⟩) :
    ∃ q ∈ x.positions.rows, q.id = π ∧ q.clientOrderId = c ∧ q.volume = v := by
  cases h with
  | waiting hm hx => cases hm.2.1.symm.trans hw
  | resting q hq hs hω hn | cancelled q hq hs hω hn => cases hn.symm.trans hw
  | held q hq hh hs hω =>
    obtain ⟨hid, hv⟩ := Held.mk.inj (some.inj (hh.symm.trans hw))
    exact ⟨q, hq.mem, hid, hq.copy, hv⟩

/-- The share that is left of a share that is left. -/
theorem share_trans {Q k c r : ℕ} (hc : 0 < c) (h : S * (c + r) ≤ Q * V)
    (hk : Q * r ≤ (Q - k) * (c + r)) : S * r ≤ (Q - k) * V := by
  refine Nat.le_of_mul_le_mul_right ?_ (Nat.add_pos_left hc r)
  calc S * r * (c + r) = S * (c + r) * r := by ring
    _ ≤ Q * V * r := Nat.mul_le_mul_right r h
    _ = Q * r * V := by ring
    _ ≤ (Q - k) * (c + r) * V := Nat.mul_le_mul_right V hk
    _ = (Q - k) * V * (c + r) := by ring

/-- What the row makes the account close is at most what is there, and leaves the master's share. -/
theorem rowClose_cases (hc : Consistent fleet s) (hca : c.account = some a)
    (hm : s.service.mappings.find c = some m) (hconf : (s.accounts a).Confirmed a m)
    {q : BrokerPosition} (hq : q ∈ (s.accounts a).positions.rows) (e : MasterPositionClosed) :
    rowClose fleet e a q.id m = 0 ∨ closeVolume q.id (s.accounts a).requests = 0 ∧
      ∃ k, rowClose fleet e a q.id m = partialCloseVolume q.volume e.closedVolume e.remainingVolume k := by
  unfold rowClose
  split_ifs with hact
  · split
    · rename_i w sl hw hby
      split_ifs with hp
      · right
        obtain ⟨v, hv⟩ : ∃ v, m.held = some ⟨q.id, v⟩ := ⟨w.slaveVolume, by rw [hw, ← hp.2]⟩
        have hst := hc.stage_of_unhit hca hm hconf.1
        obtain ⟨q', hq', hid, -, hvol⟩ := hst.volume_of_held hv
        obtain rfl := eq_of_position_id hq' hq hid
        refine ⟨hconf.2 _ (by rw [Mapping.slavePositionId, hv]; rfl), sl.closeStep e.symbolName, ?_⟩
        cases hw.symm.trans hv
        rw [hvol]
      · exact .inl rfl
    · exact .inl rfl
  · exact .inl rfl

theorem Draining.closed {e : MasterPositionClosed} {M : Master} (hc : Consistent fleet s)
    (h : Draining c π T S V (s.master.volume e.positionId) (s.accounts a))
    (hn : s.master.Next (.positionClosed e) M) (hca : c.account = some a)
    (hconf : ∀ m ∈ s.service.mappings.rows, m.clientOrderId = c → (s.accounts a).Confirmed a m) :
    Draining c π T S V (M.volume e.positionId) (s.after fleet (.positionClosed e) a) := by
  obtain ⟨q, hq, rfl, rfl, hle, hT, hS⟩ := h.position
  obtain ⟨m, hm⟩ := isSome_iff_exists.1 ((hc.booked a).positions q hq).2
  obtain ⟨hmem, hmc⟩ := Table.find_eq_some hm
  have hshare := hc.closeVolume_row e hm ⟨q, hq, rfl, rfl⟩
  have hvol : 0 < e.closedVolume ∧ s.master.volume e.positionId = e.closedVolume + e.remainingVolume ∧
      M.volume e.positionId = e.remainingVolume := by
    cases hn with
    | closed e x hx hv hsum hs => simp [Master.volume, Master.setPosition, hx, hv, hsum]
  obtain ⟨hv, hM, hM'⟩ := hvol
  rw [hM] at hS
  refine ⟨fun i hi => ?_, q, hq, rfl, rfl, ?_⟩
  · rcases List.mem_append.1 hi with hi | hi
    · exact h.noOpen i hi
    · exact not_opens_after (by simp) (by simp) i hi
  · have hreq : closeVolume q.id (s.after fleet (.positionClosed e) a).requests =
        closeVolume q.id (s.accounts a).requests + rowClose fleet e a q.id m := by
      rw [← hshare]
      exact closeVolume_append q.id _ _
    rw [hreq, closeRequested_receive, hshare, hM']
    rcases rowClose_cases hc hca hm (hconf m hmem hmc) hq e with h0 | ⟨hnone, k, hk⟩
    · rw [h0, Nat.add_zero, Nat.add_zero]
      refine ⟨hle, hT, le_trans ?_ hS⟩
      exact Nat.mul_le_mul_left S (Nat.le_add_left _ _)
    · rw [hnone, Nat.sub_zero] at hT hS
      rw [hnone, Nat.zero_add, hk]
      have hkle := partialCloseVolume_le q.volume e.closedVolume e.remainingVolume k
      refine ⟨hkle, by omega, ?_⟩
      by_cases hr : e.remainingVolume = 0
      · rw [hr, Nat.mul_zero]
        exact Nat.zero_le _
      · exact share_trans hv hS (le_mul_sub_partialCloseVolume hr)

theorem Draining.step (hc : Consistent fleet s)
    (h : Draining c π T S V (s.master.volume p) (s.accounts a)) (hca : c.account = some a)
    (hok : act.ClosesConfirmed p a c s) (hf : Fired fleet s act s') :
    Draining c π T S V (s'.master.volume p) (s'.accounts a) := by
  cases hact : act.ofSlave with
  | true =>
    have hmaster : s'.master = s.master := by
      cases hf with
      | master e m hn => simp [Action.ofSlave] at hact
      | execute b fresh i rest x hr hm | trigger b ω fresh x hm | deliver b r rest hr => rfl
    rw [hmaster]
    apply hf.account (Draining c π T S V (s.master.volume p)) hc hact h
    · intro i rest x hr hm
      exact h.execute hr hm
    · intro x hb hm
      exact h.trigger hm
    · intro rest
      exact ⟨h.noOpen, h.position⟩
    · intro x ms sent hx hs
      exact hx.receive ms hs
  | false =>
    have hconf := hok.2 hact
    cases hf with
    | master e m hn =>
      cases e with
      | positionClosed e =>
        obtain rfl : e.positionId = p := hok.1
        have hd := Draining.closed hc h hn hca hconf
        exact hd
      | _ => exact hok.1.elim
    | _ => simp [Action.ofSlave] at hact

theorem Sys.Holding.draining (h : s₀.Holding a p c π S) (hc : Consistent fleet s₀) :
    c.account = some a ∧ Draining c π ((s₀.accounts a).closeRequested π + S) S (s₀.master.volume p)
      (s₀.master.volume p) (s₀.accounts a) := by
  obtain ⟨hno, m, hmem, rfl, rfl, -, -, hheld, hconf⟩ := h
  have hm := mem_find hmem
  have hca := (hc.idents _ m hm).account
  refine ⟨hca, hno, ?_⟩
  obtain ⟨q, hq, hid, hcopy, hv⟩ := (hc.stage_of_unhit hca hm hconf.1).volume_of_held hheld
  have hnone : closeVolume π (s₀.accounts m.slaveAccountId).requests = 0 :=
    hconf.2 π (by rw [Mapping.slavePositionId, hheld]; rfl)
  refine ⟨q, hq, hid, hcopy, ?_⟩
  rw [hnone, Nat.sub_zero, hv]
  exact ⟨Nat.zero_le _, rfl, le_rfl⟩

/-- **No over-close while closes are confirmed**: in every run of closes of the position that find the
copy's earlier closes confirmed, the volume asked for never exceeds what the copy held, and when no
close is on its way the copy still holds its share of what the master has left. -/
theorem no_over_close (h₀ : Runs fleet (fun _ _ => True) Sys.init s₀) (hold : s₀.Holding a p c π S)
    (hrun : Runs fleet (Action.ClosesConfirmed p a c) s₀ s) :
    (s.accounts a).closeRequested π ≤ (s₀.accounts a).closeRequested π + S ∧
      (closeVolume π (s.accounts a).requests = 0 →
        (S : ℚ) * s.master.volume p / s₀.master.volume p ≤ (s.accounts a).positionVolume π) := by
  have hc₀ : Consistent fleet s₀ := consistent_of_run h₀
  obtain ⟨hca, hdrain⟩ := hold.draining hc₀
  have hinv := hc₀.invariant (P := fun s => Draining c π ((s₀.accounts a).closeRequested π + S) S
    (s₀.master.volume p) (s.master.volume p) (s.accounts a)) hrun hdrain
    fun act t u hok hc hf hd => hd.step hc hca hok hf
  obtain ⟨q, hq, rfl, -, hle, hT, hS⟩ := hinv.position
  refine ⟨by omega, fun hnone => ?_⟩
  have hvol : (s.accounts a).positionVolume q.id = q.volume := by
    have hfind := Table.find_of_mem hq
    rw [key_position] at hfind
    rw [Account.positionVolume, hfind]
    rfl
  rw [hnone, Nat.sub_zero] at hS
  rw [hvol]
  refine div_le_of_le_mul₀ (Nat.cast_nonneg _) (Nat.cast_nonneg _) ?_
  exact_mod_cast hS

/-- A copy of 100 that follows 100 → 60 → 30, each close confirmed before the next. -/
theorem no_over_close_sample :
    ∃ s₀ s, Runs sampleFleet (fun _ _ => True) Sys.init s₀ ∧
      Runs sampleFleet (Action.ClosesConfirmed 5 1 (.cm 5 1)) s₀ s ∧
      (s₀.Holding 1 5 (.cm 5 1) 20 100 ∧ s₀.master.volume 5 = 100 ∧ s.master.volume 5 = 30) ∧
      (s.accounts 1).closeRequested 20 ≤ (s₀.accounts 1).closeRequested 20 + 100 ∧
      (closeVolume 20 (s.accounts 1).requests = 0 →
        ((100 : ℕ) : ℚ) * s.master.volume 5 / s₀.master.volume 5 ≤ (s.accounts 1).positionVolume 20) := by
  obtain ⟨s₀, s, h₀, hrun, hold⟩ : ∃ s₀ s, Runs sampleFleet (fun _ _ => True) Sys.init s₀ ∧
      Runs sampleFleet (Action.ClosesConfirmed 5 1 (.cm 5 1)) s₀ s ∧
      (s₀.Holding 1 5 (.cm 5 1) 20 100 ∧ s₀.master.volume 5 = 100 ∧ s.master.volume 5 = 30) :=
    Machine.exists_run_pair [sampleOpen 5 100 .unset, .execute 1 20, .deliver 1]
      [sampleClose 5 40 60, .execute 1 21, .deliver 1, sampleClose 5 30 30, .execute 1 21, .deliver 1]
      Sys.init (by decide +kernel)
  exact ⟨s₀, s, h₀, hrun, hold, no_over_close h₀ hold.1 hrun⟩

/-- Two closes and the final one before any confirmation ask for 200 of a copy of 100; the first two
alone leave nothing of it while the master holds 25 of its 100. -/
theorem closes_overtake_their_confirmations :
    (∃ s₀ s, Runs sampleFleet (fun _ _ => True) Sys.init s₀ ∧
      Runs sampleFleet (fun act _ => act.OnlyCloses 5) s₀ s ∧
      (s₀.Holding 1 5 (.cm 5 1) 20 100 ∧ (s₀.accounts 1).closeRequested 20 = 0 ∧
        (s.accounts 1).closeRequested 20 = 200)) ∧
    ∃ s₀ s, Runs sampleFleet (fun _ _ => True) Sys.init s₀ ∧
      Runs sampleFleet (fun act _ => act.OnlyCloses 5) s₀ s ∧
      (s₀.Holding 1 5 (.cm 5 1) 20 100 ∧ s₀.master.volume 5 = 100 ∧ s.Quiescent sampleFleet ∧
        s.master.volume 5 = 25 ∧ (s.accounts 1).positionVolume 20 = 0) := by
  constructor
  · exact Machine.exists_run_pair [sampleOpen 5 100 .unset, .execute 1 20, .deliver 1]
      [sampleClose 5 50 50, sampleClose 5 25 25, sampleClose 5 25 0] Sys.init (by decide +kernel)
  · exact Machine.exists_run_pair [sampleOpen 5 100 .unset, .execute 1 20, .deliver 1]
      [sampleClose 5 50 50, sampleClose 5 25 25, .execute 1 21, .deliver 1, .execute 1 21, .deliver 1]
      Sys.init (by decide +kernel)

end Close

end Copier
