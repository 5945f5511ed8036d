import CopyTrading.Copier.CopyVolume

/-!
# Copier.Sequential — a copy that is booked before the master's next event

A round is one event of the master and the steps of the slaves until everything it made the copier ask
of the slave is executed and booked.  Over any number of rounds of one position the copy grows by the
mirrored volume of every open, shrinks by the floored share of every partial close, and is gone after
the full close.
-/

namespace Copier

open Option

/-- An open, an increase or a close of the position, in its symbol. -/
def MasterEvent.Trades (p : ℕ) (name : String) : MasterEvent → Prop
  | .positionOpened e => e.positionId = p ∧ e.symbolName = name
  | .positionClosed e => e.positionId = p ∧ e.symbolName = name
  | _ => False

/-- One event of the master, and steps of the slaves until the slave's account is quiet again. -/
structure Round (fleet : Fleet) (a : ℕ) (e : MasterEvent) (s s' : Sys) : Prop where
  quiet : (s.accounts a).quiet
  run : ∃ t, fire fleet (.master e) s = some t ∧ Runs fleet (fun act _ => act.ofSlave) t s'
  booked : (s'.accounts a).quiet

/-- The states after rounds of the position's events, from any state that knows no copy of it yet. -/
inductive Session (fleet : Fleet) (a p : ℕ) (name : String) : Sys → Prop
  | start (s : Sys) (h : Runs fleet (fun _ _ => True) Sys.init s)
      (hn : s.service.mappings.find (.cm p a) = none) : Session fleet a p name s
  | next (s s' : Sys) (e : MasterEvent) (h : Session fleet a p name s) (he : e.Trades p name)
      (hr : Round fleet a e s s') : Session fleet a p name s'

/-- The volume of a master position. -/
def Master.volume (m : Master) (p : ℕ) : ℕ := ((m.positions p).map MasterPosition.volume).getD 0

/-- What the slave holds of its market copy of `p`. -/
def Sys.copyVolume (s : Sys) (p a : ℕ) : ℕ := (s.accounts a).copyVolume (.cm p a)

/-! ### Rounds -/

section Rounds

variable {fleet : Fleet} {s t s' : Sys} {a p : ℕ} {name : String} {e : MasterEvent}
  {sl : SlaveConfig} {sym : SymbolInfo}

section

variable (h : Runs fleet (fun act _ => act.ofSlave) t s')
include h

/-- The slaves' steps keep what every step of an account keeps. -/
theorem slaves_keep {P : Account → Prop}
    (hc : Consistent fleet t) (h0 : P (t.accounts a))
    (hstep : ∀ act u u', Consistent fleet u → Fired fleet u act u' → act.ofSlave → P (u.accounts a) →
      P (u'.accounts a)) : P (s'.accounts a) :=
  hc.invariant (P := fun u => P (u.accounts a)) h h0 fun act u u' hact hu hf => hstep act u u' hu hf hact

theorem slaves_consistent (hc : Consistent fleet t) :
    Consistent fleet s' :=
  Machine.Run.invariant h hc fun _ _ _ hok hu hf => hu.step (fired hf hok.1)

/-- The slaves' steps leave the master alone. -/
theorem slaves_master : s'.master = t.master := by
  refine Machine.Run.invariant (P := fun u => u.master = t.master) h rfl ?_
  intro act u u' hact hu hf
  cases fired hf hact.1 with
  | master e m hn => simp [Action.ofSlave] at hact
  | execute b fresh i rest x hr hm | trigger b ω fresh x hm | deliver b r rest hr => exact hu

end

theorem Round.consistent (h : Round fleet a e s s') (hc : Consistent fleet s) : Consistent fleet s' := by
  obtain ⟨t, ht, hrun⟩ := h.run
  exact slaves_consistent hrun (hc.step (fired ht trivial))

theorem Session.consistent (h : Session fleet a p name s) : Consistent fleet s := by
  induction h with
  | start s h hn => exact consistent_of_run h
  | next s s' e h he hr ih => exact hr.consistent ih

/-- In a quiet account the row of the copy says what the broker holds. -/
theorem Consistent.stage (hc : Consistent fleet s) {c : ClientOrderId} {m : Mapping}
    (hq : (s.accounts a).quiet) (hca : c.account = some a) (hm : s.service.mappings.find c = some m) :
    Stage (s.accounts a) c m := by
  have hst := (hc.booked a).row c m hca hm
  rwa [hq.2, settle_nil] at hst

theorem Consistent.copyVolume_of_none (hc : Consistent fleet s)
    (hn : s.service.mappings.find (.cm p a) = none) : s.copyVolume p a = 0 :=
  copyVolume_of_free ((hc.booked a).noTrace hn).1

/-- **A round of an open**: the copy grows by the mirrored volume. -/
theorem Round.opened {e : MasterPositionOpened}
    (h : Round fleet sl.accountId (.positionOpened e) s s') (hc : Consistent fleet s)
    (hsl : sl ∈ fleet.slaves) (hsym : sl.symbols e.symbolName = some sym) :
    s'.copyVolume e.positionId sl.accountId = s.copyVolume e.positionId sl.accountId +
      mirrorVolume e.volume e.lotSize sl.multiplier.1 sym.lotSize sym.stepVolume := by
  obtain ⟨t, ht, hrun⟩ := h.run
  have htc := hc.step (fired ht trivial)
  obtain ⟨m, -, rfl⟩ := map_eq_some_iff.1 ht
  refine Opening.quiet ?_ h.booked.1
  refine slaves_keep hrun htc ?_ fun act u u' hu hf hact hP => hP.step rfl hu hf hact
  refine ⟨fun i hi j => ?_, ?_⟩
  · have hi' : i ∈ (s.accounts sl.accountId).requests ++
        share sl.accountId (s.reply fleet (.positionOpened e)).2 := hi
    rw [h.quiet.1, List.nil_append] at hi'
    obtain ⟨sl', -, rfl⟩ := List.mem_map.1 ((dispatched _ _).sent_sub (mem_share.1 hi').1)
    exact openFor_ne_close e sl' j
  · show (s.accounts sl.accountId).copyVolume _ + openVolume _ ((s.accounts sl.accountId).requests ++
      share sl.accountId (s.reply fleet (.positionOpened e)).2) = _
    rw [h.quiet.1, List.nil_append, openVolume_share e hsl hsym]
    rfl

/-- **A round of a close**: the copy shrinks by its share. -/
theorem Round.closed {e : MasterPositionClosed}
    (h : Round fleet sl.accountId (.positionClosed e) s s') (hc : Consistent fleet s)
    (hsl : sl ∈ fleet.slaves) (hsym : sl.symbols e.symbolName = some sym) :
    s'.copyVolume e.positionId sl.accountId = s.copyVolume e.positionId sl.accountId -
      partialCloseVolume (s.copyVolume e.positionId sl.accountId) e.closedVolume e.remainingVolume
        sym.stepVolume := by
  obtain ⟨t, ht, hrun⟩ := h.run
  have htc := hc.step (fired ht trivial)
  obtain ⟨M, -, rfl⟩ := map_eq_some_iff.1 ht
  refine Reducing.quiet ?_ h.booked.1
  refine slaves_keep hrun htc ?_ fun act u u' hu hf hact hP => hP.step rfl hu hf hact
  refine ⟨fun i hi => ?_, ?_⟩
  · have hi' : i ∈ (s.accounts sl.accountId).requests ++
        share sl.accountId (s.reply fleet (.positionClosed e)).2 := hi
    rw [h.quiet.1, List.nil_append] at hi'
    exact not_opens_after (by simp) (by simp) i hi'
  · show (s.accounts sl.accountId).positions.sum (fun q =>
      if q.clientOrderId = .cm e.positionId sl.accountId then
        q.volume - closeVolume q.id ((s.accounts sl.accountId).requests ++
          share sl.accountId (s.reply fleet (.positionClosed e)).2)
      else 0) = _
    rw [h.quiet.1, List.nil_append]
    by_cases hpos : 0 < s.copyVolume e.positionId sl.accountId
    · -- the row is active on the one position that holds the copy
      obtain ⟨m, hm⟩ : ∃ m, s.service.mappings.find (.cm e.positionId sl.accountId) = some m := by
        by_contra hno
        rw [not_exists] at hno
        have := hc.copyVolume_of_none (eq_none_iff_forall_ne_some.2 hno)
        omega
      obtain ⟨hact, q, hq, hqv, hheld⟩ := (hc.stage h.quiet rfl hm).of_copyVolume hpos
      have hlink := (hc.idents _ m hm).2.1
      have hshare := hc.closeVolume_share hsl rfl hm hlink hact hheld
      rw [Table.sum_eq_single hq.mem]
      · rw [if_pos hq.copy, hshare, hqv]
        simp only [SlaveConfig.closeStep, hsym]
        rfl
      · intro q' hq' hne
        split_ifs with hcopy
        · rw [hq.others q' hq' hcopy hne, Nat.zero_sub]
        · rfl
    · have h0 : s.copyVolume e.positionId sl.accountId = 0 := by omega
      have hsum : ((s.accounts sl.accountId).positions.sum fun q =>
          if q.clientOrderId = .cm e.positionId sl.accountId then q.volume else 0) = 0 := h0
      rw [h0, Nat.zero_sub]
      refine (Table.sum_congr fun q hq => ?_).trans hsum
      split_ifs with hcopy
      · rw [volume_of_copyVolume h0 hq hcopy, Nat.zero_sub]
      · rfl

/-! ### Sessions -/

variable {sl : SlaveConfig} {sym : SymbolInfo}

/-- The copy is a multiple of the step. -/
theorem Session.dvd (h : Session fleet sl.accountId p name s) (hsl : sl ∈ fleet.slaves)
    (hsym : sl.symbols name = some sym) (hk : 1 ≤ sym.stepVolume) :
    sym.stepVolume ∣ s.copyVolume p sl.accountId := by
  induction h with
  | start s h hn =>
    rw [(consistent_of_run h).copyVolume_of_none hn]
    exact dvd_zero _
  | next s s' e h he hr ih =>
    cases e with
    | positionOpened e =>
      obtain ⟨rfl, rfl⟩ := he
      rw [hr.opened h.consistent hsl hsym]
      exact dvd_add ih (dvd_mirrorVolume hk)
    | positionClosed e =>
      obtain ⟨rfl, rfl⟩ := he
      rw [hr.closed h.consistent hsl hsym]
      exact Nat.dvd_sub ih (dvd_partialCloseVolume hk ih)
    | _ => exact he.elim

/-- The copy `S` follows an open: it becomes `S'`, more by exactly the mirrored volume, which grows with
the volume opened and lies in `(x - k - 1/2, x + 1/2]` around the exact volume `x`. -/
structure FollowsOpen (sl : SlaveConfig) (sym : SymbolInfo) (e : MasterPositionOpened) (S S' : ℕ) :
    Prop where
  adds : S' = S + mirrorVolume e.volume e.lotSize sl.multiplier.1 sym.lotSize sym.stepVolume
  mono : ∀ d d', d ≤ d' → mirrorVolume d e.lotSize sl.multiplier.1 sym.lotSize sym.stepVolume ≤
    mirrorVolume d' e.lotSize sl.multiplier.1 sym.lotSize sym.stepVolume
  above : exactVolume e.volume e.lotSize sl.multiplier.1 sym.lotSize - sym.stepVolume - 1 / 2 <
    (mirrorVolume e.volume e.lotSize sl.multiplier.1 sym.lotSize sym.stepVolume : ℚ)
  below : (mirrorVolume e.volume e.lotSize sl.multiplier.1 sym.lotSize sym.stepVolume : ℚ) ≤
    exactVolume e.volume e.lotSize sl.multiplier.1 sym.lotSize + 1 / 2

/-- The copy `S` follows a close `M → M'` of the master, to `S'`. -/
structure FollowsClose (k M M' S S' : ℕ) : Prop where
  lower : 0 < M' → (S : ℚ) * M' / M ≤ S'
  upper : 0 < M' → (S' : ℚ) < (S : ℚ) * M' / M + k
  nonempty : 0 < M' → 0 < S → 0 < S'
  full : M' = 0 → S' = 0

/-- What a round does to the copy. -/
def Follows (sl : SlaveConfig) (sym : SymbolInfo) (p : ℕ) (s s' : Sys) : MasterEvent → Prop
  | .positionOpened e =>
    FollowsOpen sl sym e (s.copyVolume p sl.accountId) (s'.copyVolume p sl.accountId)
  | .positionClosed _ =>
    FollowsClose sym.stepVolume (s.master.volume p) (s'.master.volume p)
      (s.copyVolume p sl.accountId) (s'.copyVolume p sl.accountId)
  | _ => False

theorem followsClose_partialClose {k S c r : ℕ} (hk : 1 ≤ k) (hc : 0 < c) :
    FollowsClose k (c + r) r S (S - partialCloseVolume S c r k) := by
  have hpos : (0 : ℚ) < (c + r : ℕ) := by exact_mod_cast Nat.add_pos_left hc r
  have hlow : 0 < r → S * r ≤ (S - partialCloseVolume S c r k) * (c + r) :=
    fun hr => le_mul_sub_partialCloseVolume (by omega)
  refine ⟨fun hr => ?_, fun hr => ?_, fun hr hS => ?_, fun hr => ?_⟩
  · rw [div_le_iff₀ hpos]
    exact_mod_cast hlow hr
  · have hlt := mul_sub_partialCloseVolume_lt (s := S) (c := c) (r := r) hk (by omega)
    have hlt' : ((S - partialCloseVolume S c r k : ℕ) : ℚ) * (c + r : ℕ) <
        (S : ℚ) * r + k * (c + r : ℕ) := by exact_mod_cast hlt
    rw [← sub_lt_iff_lt_add, lt_div_iff₀ hpos, sub_mul]
    linarith
  · have hlow' := hlow hr
    by_contra h0
    have hz : S - partialCloseVolume S c r k = 0 := by omega
    rw [hz, Nat.zero_mul] at hlow'
    have := Nat.mul_pos hS hr
    omega
  · rw [hr, partialCloseVolume_full, Nat.sub_self]

theorem Round.master_closed {e : MasterPositionClosed} (h : Round fleet a (.positionClosed e) s s') :
    0 < e.closedVolume ∧ s.master.volume e.positionId = e.closedVolume + e.remainingVolume ∧
      s'.master.volume e.positionId = e.remainingVolume := by
  obtain ⟨t, ht, hrun⟩ := h.run
  obtain ⟨M, hM, rfl⟩ := map_eq_some_iff.1 ht
  have hmaster : s'.master = M := slaves_master hrun
  cases Master.next_cases hM with
  | closed e x hx hv hsum hs =>
    refine ⟨hv, ?_, ?_⟩
    · simp [Master.volume, hx, hsum]
    · rw [hmaster]
      simp [Master.volume, Master.setPosition]

theorem Round.follows (h : Round fleet sl.accountId e s s') (hc : Consistent fleet s)
    (he : e.Trades p name) (hsl : sl ∈ fleet.slaves) (hsym : sl.symbols name = some sym)
    (hk : 1 ≤ sym.stepVolume) : Follows sl sym p s s' e := by
  cases e with
  | positionOpened e =>
    obtain ⟨rfl, rfl⟩ := he
    exact ⟨h.opened hc hsl hsym, fun d d' => mirrorVolume_mono sl.multiplier.2, lt_mirrorVolume hk,
      mirrorVolume_le sl.multiplier.2⟩
  | positionClosed e =>
    obtain ⟨rfl, rfl⟩ := he
    obtain ⟨hv, hM, hM'⟩ := h.master_closed
    show FollowsClose _ _ _ _ _
    rw [hM, hM', h.closed hc hsl hsym]
    exact followsClose_partialClose hk hv
  | _ => exact he.elim

/-- **Sequential copy fidelity**: in every session of one position, each round leaves a copy that is a
multiple of the step, has the volume its row says, and follows the event; once the master holds nothing
the copy is empty and its row, if it was ever activated, is closed. -/
theorem sequential_copy_fidelity (hsl : sl ∈ fleet.slaves) (hsym : sl.symbols name = some sym)
    (hk : 1 ≤ sym.stepVolume) (h : Session fleet sl.accountId p name s) (he : e.Trades p name)
    (hr : Round fleet sl.accountId e s s') :
    sym.stepVolume ∣ s'.copyVolume p sl.accountId ∧ Follows sl sym p s s' e ∧
      ∀ m, s'.service.mappings.find (.cm p sl.accountId) = some m →
        m.volume = s'.copyVolume p sl.accountId ∧
          (s'.copyVolume p sl.accountId = 0 → m.held ≠ none → m.status = .closed) := by
  have hc := h.consistent
  refine ⟨(Session.next s s' e h he hr).dvd hsl hsym hk, hr.follows hc he hsl hsym hk, ?_⟩
  intro m hm
  have hst := (hr.consistent hc).stage hr.booked rfl hm
  exact ⟨hst.copyVolume.symm, fun h0 hh => hst.closed hh h0⟩

/-- The state after a round with these steps of the slaves, if it is one. -/
def playRound (fleet : Fleet) (a : ℕ) (e : MasterEvent) (acts : List Action) (s : Sys) : Option Sys :=
  if (s.accounts a).quiet then
    ((fire fleet (.master e) s).bind
      (Machine.fireAll (fire fleet) (fun act s => act.Lands s && act.ofSlave) acts)).filter
        fun s' => (s'.accounts a).quiet
  else none

theorem round_of_playRound {acts : List Action} (h : playRound fleet a e acts s = some s') :
    Round fleet a e s s' := by
  unfold playRound at h
  split_ifs at h with hq
  obtain ⟨h, hb⟩ := filter_eq_some_iff.1 h
  obtain ⟨t, ht, hrun⟩ := bind_eq_some_iff.1 h
  exact ⟨hq, ⟨t, ht, Machine.run_of_fireAll (fun _ _ h => by simpa using h) hrun⟩, of_decide_eq_true hb⟩

/-- The symbol record of the sample fleet's slave. -/
def sampleSymbol : SymbolInfo := ⟨7, 100, 1⟩

/-- A copy of 100, and the round in which the master closes 33 of its 100. -/
theorem sequential_copy_fidelity_sample :
    ∃ s s', Session sampleFleet 1 5 "EURUSD" s ∧
      Round sampleFleet 1 (.positionClosed ⟨5, "EURUSD", 33, 67⟩) s s' ∧ s.copyVolume 5 1 = 100 ∧
      1 ∣ s'.copyVolume 5 1 ∧
      Follows (sampleSlave 1 7) sampleSymbol 5 s s' (.positionClosed ⟨5, "EURUSD", 33, 67⟩) ∧
      ∀ m, s'.service.mappings.find (.cm 5 1) = some m → m.volume = s'.copyVolume 5 1 ∧
        (s'.copyVolume 5 1 = 0 → m.held ≠ none → m.status = .closed) := by
  have hplay : (((playRound sampleFleet 1 (.positionOpened ⟨5, "EURUSD", .buy, 100, 100, .unset, none⟩)
      [.execute 1 20, .deliver 1] Sys.init).filter fun s => s.copyVolume 5 1 = 100).bind
      (playRound sampleFleet 1 (.positionClosed ⟨5, "EURUSD", 33, 67⟩)
        [.execute 1 21, .deliver 1])).isSome := by decide +kernel
  obtain ⟨s', hs'⟩ := isSome_iff_exists.1 hplay
  obtain ⟨s, hs, hclose⟩ := bind_eq_some_iff.1 hs'
  obtain ⟨hopen, hvol⟩ := filter_eq_some_iff.1 hs
  have hstart := round_of_playRound hopen
  have hround := round_of_playRound hclose
  have hsession : Session sampleFleet 1 5 "EURUSD" s := by
    apply Session.next _ _ _ (.start _ (Machine.Run.refl _) rfl) ?_ hstart
    exact ⟨rfl, rfl⟩
  have hsl : sampleSlave 1 7 ∈ sampleFleet.slaves := List.mem_cons_self
  have hsym : (sampleSlave 1 7).symbols "EURUSD" = some sampleSymbol := rfl
  exact ⟨s, s', hsession, hround, of_decide_eq_true hvol,
    sequential_copy_fidelity hsl hsym le_rfl hsession ⟨rfl, rfl⟩ hround⟩

end Rounds

end Copier
