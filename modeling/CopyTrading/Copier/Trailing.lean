import CopyTrading.Lib.Machine
import CopyTrading.Copier.Models

/-!
# Copier.Trailing — the trailing stop (`domain/trailing.py`, `_check_one_trailing_position`, `_apply_risk_engine`)

Every few seconds the stop of a tracked position is moved after the best price it has seen.  The ratchet compares
with a stop of its own, stored when the position was opened and after each move, and never with the stop that the
position has at the broker, which operators and the risk engine change too.
-/

namespace Copier.Trailing

open Option

variable {side : Side}

/-! ### Prices -/

/-- `round(x, digits)`. -/
def roundTo (digits : ℕ) (x : ℚ) : ℚ := roundEven (x * 10 ^ digits) / 10 ^ digits

theorem floor_le_roundEven (x : ℚ) : ⌊x⌋ ≤ roundEven x := by
  unfold roundEven
  split_ifs <;> omega

theorem roundEven_le (x : ℚ) : roundEven x ≤ ⌊x⌋ + 1 := by
  unfold roundEven
  split_ifs <;> omega

theorem roundEven_mono {x y : ℚ} (h : x ≤ y) : roundEven x ≤ roundEven y := by
  rcases (Int.floor_mono h).lt_or_eq with hlt | heq
  · calc roundEven x ≤ ⌊x⌋ + 1 := roundEven_le x
      _ ≤ ⌊y⌋ := hlt
      _ ≤ roundEven y := floor_le_roundEven y
  · -- between the same two whole numbers
    unfold roundEven
    rw [heq]
    split_ifs <;> first | omega | linarith

theorem roundTo_mono (digits : ℕ) {x y : ℚ} (h : x ≤ y) : roundTo digits x ≤ roundTo digits y := by
  have hpos : (0 : ℚ) < 10 ^ digits := by positivity
  have hscaled : roundEven (x * 10 ^ digits) ≤ roundEven (y * 10 ^ digits) :=
    roundEven_mono (mul_le_mul_of_nonneg_right h hpos.le)
  exact div_le_div_of_nonneg_right (by exact_mod_cast hscaled) hpos.le

/-- The stop `a` is at least as tight as the stop `b`. -/
def AtLeast (side : Side) (a b : ℚ) : Prop :=
  match side with
  | .buy => b ≤ a
  | .sell => a ≤ b

instance (side : Side) (a b : ℚ) : Decidable (AtLeast side a b) := by
  unfold AtLeast
  split <;> infer_instance

theorem AtLeast.refl (side : Side) (a : ℚ) : AtLeast side a a := by
  cases side <;> exact le_refl a

theorem AtLeast.trans {a b c : ℚ} (h : AtLeast side a b) (h' : AtLeast side b c) :
    AtLeast side a c := by
  cases side with
  | buy => exact le_trans (show c ≤ b from h') h
  | sell => exact le_trans (show a ≤ b from h) h'

theorem AtLeast.roundTo {a b : ℚ} (digits : ℕ) (h : AtLeast side a b) :
    AtLeast side (roundTo digits a) (roundTo digits b) := by
  cases side <;> exact roundTo_mono digits h

/-! ### The ratchet -/

/-- `RiskRule`. -/
structure RiskRule where
  stopPoints : Option ℚ
  targetPoints : Option ℚ
  trailingEnabled : Bool
  trailStartPoints : Option ℚ
  trailStepPoints : Option ℚ
  deriving DecidableEq

/-- `TrailingState`; its age is told by the clock. -/
structure TrailingState where
  bestPrice : ℚ
  currentStop : ℚ
  deriving DecidableEq

/-- The better of two prices of a position, and the tighter of two stops. -/
def better (side : Side) (a b : ℚ) : ℚ :=
  match side with
  | .buy => max a b
  | .sell => min a b

theorem better_atLeast (side : Side) (a b : ℚ) : AtLeast side (better side a b) b := by
  cases side with
  | buy => exact le_max_right a b
  | sell => exact min_le_right a b

/-- `1` for a buy, `-1` for a sell. -/
def sideSign : Side → ℚ
  | .buy => 1
  | .sell => -1

/-- `compute_trailed_stop`; `none` if the division raises. -/
def computeTrailedStop (side : Side) (entryPrice bestPrice trailStartPoints trailStepPoints currentStop : ℚ) :
    Option ℚ :=
  let favourable := match side with
    | .buy => bestPrice - entryPrice
    | .sell => entryPrice - bestPrice
  if favourable < trailStartPoints then some currentStop
  else if trailStepPoints = 0 then none
  else
    let steps := ⌊(favourable - trailStartPoints) / trailStepPoints⌋
    let distance := trailStartPoints - trailStepPoints + steps * trailStepPoints
    let candidate := match side with
      | .buy => entryPrice + distance
      | .sell => entryPrice - distance
    some (better side candidate currentStop)

/-- A stop only ever tightens, against the stop it is compared with. -/
theorem computeTrailedStop_atLeast {entry best start step current new : ℚ}
    (h : computeTrailedStop side entry best start step current = some new) : AtLeast side new current := by
  unfold computeTrailedStop at h
  simp only at h
  split_ifs at h
  · cases h
    exact AtLeast.refl side current
  · cases h
    exact better_atLeast side _ current

/-- `validated_price`: `none` if it raises. -/
def validatedPrice : Option ℚ → Option (Option ℚ)
  | none => some none
  | some x => if 0 < x then some (some x) else none

/-- `amend_position_sltp`: what is sent; `none` if it raises.  `refused`: the account has no client. -/
def amendPositionSltp (refused : Bool) (digits : Option ℕ) (l : Levels) : Option Levels := do
  let sl ← validatedPrice l.stopLoss
  let tp ← validatedPrice l.takeProfit
  if refused then none
  else
    match digits with
    | none => some ⟨sl, tp⟩
    | some d => some ⟨sl.map (roundTo d), tp.map (roundTo d)⟩

theorem amendPositionSltp_stopLoss {refused : Bool} {d : ℕ} {l sent : Levels}
    (h : amendPositionSltp refused (some d) l = some sent) : sent.stopLoss = l.stopLoss.map (roundTo d) := by
  obtain ⟨sl, hsl, h⟩ := bind_eq_some_iff.1 h
  obtain ⟨tp, -, h⟩ := bind_eq_some_iff.1 h
  simp only at h
  split_ifs at h
  cases h
  have hsame : sl = l.stopLoss := by
    cases hl : l.stopLoss with
    | none =>
      rw [hl] at hsl
      exact (some.inj hsl).symm
    | some x =>
      simp only [hl, validatedPrice] at hsl
      split_ifs at hsl
      exact (some.inj hsl).symm
  rw [hsame]

/-! ### One position -/

/-- A position, its stop at the broker, and what the copier has stored and sent. -/
structure State where
  /-- The stop that the position has. -/
  live : Option ℚ
  /-- Amends on their way to the broker. -/
  flight : List Levels
  stored : Option TrailingState
  /-- The stops that the trailing loop has sent, each with the live stop at that moment. -/
  trailed : List (Option ℚ × Option ℚ)
  deriving DecidableEq

/-- What a check of the loop finds. -/
structure Check where
  /-- `_current_position_price`. -/
  currentPrice : Option ℚ
  /-- `_trailing_state_age_seconds`. -/
  age : Option ℚ
  /-- The entry price of the position's row. -/
  entryPrice : Option ℚ
  rule : Option RiskRule
  takeProfit : Option ℚ
  digits : Option ℕ
  refused : Bool
  deriving DecidableEq

/-- What happens next to one position. -/
inductive Action where
  /-- `_check_one_trailing_position`. -/
  | check (c : Check)
  /-- An operator amends the position through the copier. -/
  | amend (l : Levels) (digits : Option ℕ) (refused : Bool)
  /-- The stop is changed at the broker. -/
  | own (stop : Option ℚ)
  /-- An open or increase reaches `_apply_risk_engine`. -/
  | opened (e : MasterPositionOpened) (rule : Option RiskRule) (digits : Option ℕ) (refused : Bool)
  | closed (remainingVolume : ℕ)
  /-- An amend reaches the broker, which accepts or refuses it. -/
  | arrive (i : ℕ) (accepted : Bool)
  deriving DecidableEq

/-- `TRAILING_STATE_STALE_AFTER_S`. -/
def trailingStateStaleAfter : ℚ := 180

/-- The row after a tick with this price; `none` if the tick raises. -/
def ratchet (side : Side) (rule : RiskRule) (entryPrice currentPrice : ℚ) (row : TrailingState) :
    Option TrailingState := do
  let start ← rule.trailStartPoints
  let step ← rule.trailStepPoints
  let bestPrice := better side row.bestPrice currentPrice
  let newStop ← computeTrailedStop side entryPrice bestPrice start step row.currentStop
  return ⟨bestPrice, newStop⟩

theorem ratchet_atLeast {rule : RiskRule} {entry price : ℚ} {row row' : TrailingState}
    (h : ratchet side rule entry price row = some row') : AtLeast side row'.currentStop row.currentStop := by
  obtain ⟨start, -, h⟩ := bind_eq_some_iff.1 h
  obtain ⟨step, -, h⟩ := bind_eq_some_iff.1 h
  obtain ⟨new, hnew, h⟩ := bind_eq_some_iff.1 h
  cases h
  exact computeTrailedStop_atLeast hnew

namespace State

/-- A tick for which price, row and rule were found. -/
def trail (c : Check) (row row' : TrailingState) (s : State) : State :=
  if row'.currentStop = row.currentStop then { s with stored := some row' }
  else
    match amendPositionSltp c.refused c.digits ⟨some row'.currentStop, c.takeProfit⟩ with
    | none => s
    | some sent =>
      { s with
        stored := some row'
        flight := s.flight ++ [sent]
        trailed := (sent.stopLoss, s.live) :: s.trailed }

/-- `_check_one_trailing_position`. -/
def checkOne (side : Side) (c : Check) (row : TrailingState) (s : State) : State :=
  match c.currentPrice with
  | none =>
    if c.age.any (trailingStateStaleAfter ≤ ·) then { s with stored := none } else s
  | some price =>
    match c.entryPrice, c.rule with
    | some entry, some rule =>
      if rule.trailingEnabled then
        match ratchet side rule entry price row with
        | some row' => s.trail c row row'
        | none => s
      else s
    | _, _ => s

end State

/-- The protection that a rule completes. -/
def fillIn (rule : RiskRule) (side : Side) (entry : ℚ) (l : Levels) : Levels where
  stopLoss := l.stopLoss.or (rule.stopPoints.map fun p => entry - sideSign side * p)
  takeProfit := l.takeProfit.or (rule.targetPoints.map fun p => entry + sideSign side * p)

/-- The stop that an open stores for the loop. -/
def seeds (e : MasterPositionOpened) (rule : RiskRule) : Option TrailingState := do
  let entry ← e.entryPrice
  if rule.trailingEnabled then
    let stop ← (fillIn rule e.side entry e.levels).stopLoss
    return ⟨entry, stop⟩
  else none

/-- The amend that an open is completed with. -/
def completes (e : MasterPositionOpened) (rule : RiskRule) (digits : Option ℕ) (refused : Bool) :
    Option Levels := do
  let entry ← e.entryPrice
  let l := fillIn rule e.side entry e.levels
  if l = e.levels then none else amendPositionSltp refused digits l

namespace State

/-- `_apply_risk_engine` for an open. -/
def applyRiskEngine (e : MasterPositionOpened) (rule : RiskRule) (digits : Option ℕ) (refused : Bool)
    (s : State) : State :=
  { s with
    flight := s.flight ++ (completes e rule digits refused).toList
    stored := (seeds e rule).or s.stored }

/-- One action; `none` where it cannot happen. -/
def fire (side : Side) : Action → State → Option State
  | .check c, s => s.stored.map fun row => s.checkOne side c row
  | .amend l digits refused, s =>
    (amendPositionSltp refused digits l).map fun sent => { s with flight := s.flight ++ [sent] }
  | .own stop, s => some { s with live := stop }
  | .opened e rule digits refused, s =>
    if e.side = side then some ((rule.map fun r => s.applyRiskEngine e r digits refused).getD s) else none
  | .closed remaining, s => some (if remaining = 0 then { s with stored := none } else s)
  | .arrive i accepted, s =>
    (s.flight[i]?).map fun l =>
      { s with live := if accepted then l.stopLoss else s.live, flight := s.flight.eraseIdx i }

/-! ### When the stored stop is a bound -/

/-- Every stop that the position has or may get is no tighter than `stop`. -/
structure Under (digits : ℕ) (side : Side) (stop : ℚ) (s : State) : Prop where
  live : ∀ x ∈ s.live, AtLeast side (roundTo digits stop) x
  flight : ∀ l ∈ s.flight, ∀ x ∈ l.stopLoss, AtLeast side (roundTo digits stop) x

instance (digits : ℕ) (side : Side) (stop : ℚ) (s : State) : Decidable (s.Under digits side stop) :=
  decidable_of_iff ((∀ x ∈ s.live, AtLeast side (roundTo digits stop) x) ∧
      ∀ l ∈ s.flight, ∀ x ∈ l.stopLoss, AtLeast side (roundTo digits stop) x)
    ⟨fun h => ⟨h.1, h.2⟩, fun h => ⟨h.live, h.flight⟩⟩

/-- A new stop is no tighter than the stored one. -/
def Allows (digits : ℕ) (side : Side) (s : State) (stop : Option ℚ) : Prop :=
  ∀ row ∈ s.stored, ∀ x ∈ stop, AtLeast side (roundTo digits row.currentStop) x

instance (digits : ℕ) (side : Side) (s : State) (stop : Option ℚ) : Decidable (s.Allows digits side stop) := by
  unfold Allows
  infer_instance

end State

/-- Nobody but the loop tightens a stored stop: an amend or a change at the broker sets no tighter stop than the
stored one, an open stores a stop that is at least as tight as those the position has or is about to get, and
prices are rounded to the symbol's digits. -/
def Action.Respects (digits : ℕ) (side : Side) (a : Action) (s : State) : Prop :=
  match a with
  | .check c => c.digits = some digits
  | .amend l found refused => ∀ sent ∈ amendPositionSltp refused found l, s.Allows digits side sent.stopLoss
  | .own stop => s.Allows digits side stop
  | .opened e rule found refused => found = some digits ∧ ∀ r ∈ rule,
    (∀ row ∈ seeds e r, s.Under digits side row.currentStop) ∧
      (seeds e r = none → ∀ sent ∈ completes e r found refused, s.Allows digits side sent.stopLoss)
  | .closed _ => True
  | .arrive _ _ => True

instance (digits : ℕ) (side : Side) (a : Action) (s : State) : Decidable (a.Respects digits side s) := by
  unfold Action.Respects
  split <;> infer_instance

namespace State

variable {sent : Levels} {row : TrailingState} {e : MasterPositionOpened} {rule : RiskRule}
  {refused : Bool}

/-- The stored stop bounds the others, and every stop that the loop has sent was at least as tight as the live
one. -/
structure Ratcheted (digits : ℕ) (side : Side) (s : State) : Prop where
  bound : ∀ row ∈ s.stored, s.Under digits side row.currentStop
  tight : ∀ x ∈ s.trailed, ∀ l ∈ x.2, ∃ stop ∈ x.1, AtLeast side stop l

variable {digits : ℕ} {side : Side} {s s' : State}

theorem Under.tighter {a b : ℚ} (h : s.Under digits side b) (hab : AtLeast side a b) : s.Under digits side a :=
  ⟨fun x hx => (hab.roundTo digits).trans (h.live x hx),
    fun l hl x hx => (hab.roundTo digits).trans (h.flight l hl x hx)⟩

theorem Under.send {stop : ℚ} (h : s.Under digits side stop)
    (hsent : ∀ x ∈ sent.stopLoss, AtLeast side (roundTo digits stop) x) :
    { s with flight := s.flight ++ [sent] }.Under digits side stop := by
  refine ⟨h.live, fun l hl x hx => ?_⟩
  rcases List.mem_append.1 hl with hl | hl
  · exact h.flight l hl x hx
  · obtain rfl := List.mem_singleton.1 hl
    exact hsent x hx

theorem Ratcheted.trail {c : Check} {row' : TrailingState} (h : s.Ratcheted digits side)
    (hc : c.digits = some digits) (hrow : s.stored = some row)
    (htight : AtLeast side row'.currentStop row.currentStop) : (s.trail c row row').Ratcheted digits side := by
  have hunder : s.Under digits side row'.currentStop := (h.bound row hrow).tighter htight
  unfold State.trail
  split_ifs with hsame
  · refine ⟨fun r hr => ?_, h.tight⟩
    cases hr
    exact ⟨hunder.live, hunder.flight⟩
  · rw [hc]
    split
    · exact h
    · next sent hsent =>
      -- what is sent is the new stop at the symbol's digits
      have hstop : sent.stopLoss = some (roundTo digits row'.currentStop) := amendPositionSltp_stopLoss hsent
      refine ⟨fun r hr => ?_, fun x hx l hl => ?_⟩
      · cases hr
        have hsame : ∀ x ∈ sent.stopLoss, AtLeast side (roundTo digits row'.currentStop) x := by
          intro x hx
          cases hstop.symm.trans hx
          exact AtLeast.refl side _
        have hsend := hunder.send hsame
        exact ⟨hsend.live, hsend.flight⟩
      · rcases List.mem_cons.1 hx with rfl | hx
        · exact ⟨_, hstop, hunder.live l hl⟩
        · exact h.tight x hx l hl

theorem Ratcheted.checkOne {c : Check} (h : s.Ratcheted digits side)
    (hc : c.digits = some digits) (hrow : s.stored = some row) :
      (s.checkOne side c row).Ratcheted digits side := by
  unfold State.checkOne
  split
  · split_ifs
    · exact ⟨fun r hr => absurd hr nofun, h.tight⟩
    · exact h
  · split
    · split_ifs
      · split
        · next hr => exact h.trail hc hrow (ratchet_atLeast hr)
        · exact h
      · exact h
    · exact h

theorem completes_stopLoss
    (hrow : seeds e rule = some row) (h : completes e rule (some digits) refused = some sent) :
    sent.stopLoss = some (roundTo digits row.currentStop) := by
  obtain ⟨entry, he, hrow⟩ := bind_eq_some_iff.1 hrow
  obtain ⟨entry', he', h⟩ := bind_eq_some_iff.1 h
  cases he.symm.trans he'
  simp only at h hrow
  split_ifs at h hrow
  obtain ⟨stop, hstop, hrow⟩ := bind_eq_some_iff.1 hrow
  cases hrow
  rw [amendPositionSltp_stopLoss h, hstop]
  rfl

theorem Ratcheted.applyRiskEngine (h : s.Ratcheted digits side)
    (hseeds : ∀ row ∈ seeds e rule, s.Under digits side row.currentStop)
    (hfill : seeds e rule = none → ∀ sent ∈ completes e rule (some digits) refused,
      s.Allows digits side sent.stopLoss) :
    (s.applyRiskEngine e rule (some digits) refused).Ratcheted digits side := by
  refine ⟨fun row hrow => ?_, h.tight⟩
  -- the stop that bounds afterwards bounds before, and bounds what the open sends
  have hboth : s.Under digits side row.currentStop ∧ ∀ sent ∈ completes e rule (some digits) refused,
      ∀ x ∈ sent.stopLoss, AtLeast side (roundTo digits row.currentStop) x := by
    cases hs : seeds e rule with
    | some seeded =>
      simp only [State.applyRiskEngine, hs, some_or] at hrow
      cases hrow
      refine ⟨hseeds _ hs, fun sent hsent x hx => ?_⟩
      cases (completes_stopLoss hs hsent).symm.trans hx
      exact AtLeast.refl side _
    | none =>
      simp only [State.applyRiskEngine, hs, none_or] at hrow
      exact ⟨h.bound row hrow, fun sent hsent => hfill hs sent hsent row hrow⟩
  obtain ⟨hunder, hsent⟩ := hboth
  refine ⟨hunder.live, fun l hl x hx => ?_⟩
  rcases List.mem_append.1 hl with hl | hl
  · exact hunder.flight l hl x hx
  · exact hsent l (mem_toList.1 hl) x hx

/-- **Every step keeps the bound.** -/
theorem Ratcheted.step (a : Action) (h : s.Ratcheted digits side) (ha : a.Respects digits side s)
    (hf : fire side a s = some s') : s'.Ratcheted digits side := by
  cases a with
  | check c =>
    obtain ⟨row, hrow, rfl⟩ := map_eq_some_iff.1 hf
    exact h.checkOne ha hrow
  | amend l found refused =>
    obtain ⟨sent, hsent, rfl⟩ := map_eq_some_iff.1 hf
    refine ⟨fun row hrow => ?_, h.tight⟩
    exact (h.bound row hrow).send (ha sent hsent row hrow)
  | own stop =>
    cases hf
    exact ⟨fun row hrow => ⟨fun x hx => ha row hrow x hx, (h.bound row hrow).flight⟩, h.tight⟩
  | opened e rule found refused =>
    obtain ⟨rfl, hrule⟩ := ha
    simp only [fire] at hf
    split_ifs at hf
    cases hf
    cases rule with
    | none => exact h
    | some r => exact h.applyRiskEngine (hrule r rfl).1 (hrule r rfl).2
  | closed remaining =>
    cases hf
    split_ifs
    · exact ⟨fun r hr => absurd hr nofun, h.tight⟩
    · exact h
  | arrive i accepted =>
    obtain ⟨l, hl, rfl⟩ := map_eq_some_iff.1 hf
    refine ⟨fun row hrow => ?_, h.tight⟩
    have hunder := h.bound row hrow
    refine ⟨fun x hx => ?_, fun l' hl' => hunder.flight l' (List.mem_of_mem_eraseIdx hl')⟩
    cases accepted with
    | true => exact hunder.flight l (List.mem_of_getElem? hl) x hx
    | false => exact hunder.live x hx

/-- **Trailing never loosens a stop** that nobody else has tightened. -/
theorem trailing_never_loosens {start : State} (hstored : start.stored = none) (hnew : start.trailed = [])
    (h : Machine.Run (fire side) (Action.Respects digits side) start s) :
    ∀ x ∈ s.trailed, ∀ l ∈ x.2, ∃ stop ∈ x.1, AtLeast side stop l := by
  have hstart : start.Ratcheted digits side := by
    refine ⟨fun row hrow => ?_, fun x hx => ?_⟩
    · rw [hstored] at hrow
      cases hrow
    · rw [hnew] at hx
      cases hx
  exact (h.invariant hstart fun a _ _ ha hi hf => hi.step a ha hf).tight

/-- A position with its stop at 95. -/
def sampleStart : State := ⟨some 95, [], none, []⟩

/-- Trailing starts at 1 point and moves by 3. -/
def sampleRule : RiskRule := ⟨none, none, true, some 1, some 3⟩

/-- The buy of that position at 100. -/
def sampleOpen : MasterPositionOpened :=
  { positionId := 7, symbolName := "XAUUSD", side := .buy, volume := 100, lotSize := 100
    levels := ⟨some 95, none⟩, entryPrice := some 100 }

def sampleCheck (price : ℚ) : Check := ⟨some price, some 0, some 100, some sampleRule, none, some 2, false⟩

/-- The price goes to 101, then to 104. -/
theorem trailing_never_loosens_sample : ∃ s : State, s.trailed = [(some 101, some 98), (some 98, some 95)] ∧
    ∀ x ∈ s.trailed, ∀ l ∈ x.2, ∃ stop ∈ x.1, AtLeast .buy stop l := by
  obtain ⟨s, hrun, hs⟩ : ∃ s : State, Machine.Run (fire .buy) (Action.Respects 2 .buy) sampleStart s ∧
      s.trailed = [(some 101, some 98), (some 98, some 95)] :=
    Machine.exists_run [.opened sampleOpen (some sampleRule) (some 2) false, .check (sampleCheck 101),
      .arrive 0 true,
        .check (sampleCheck 104), .arrive 0 true] sampleStart (by decide +kernel)
  exact ⟨s, hs, trailing_never_loosens rfl rfl hrun⟩

/-- An operator tightens the stop to 99; at 101 the loop sends 98. -/
theorem trailing_loosens : ∃ s : State, Machine.Run (fire .buy) (fun _ _ => True) sampleStart s ∧
    s.trailed = [(some 98, some 99)] :=
  Machine.exists_run [.opened sampleOpen (some sampleRule) (some 2) false, .amend ⟨some 99, none⟩ (some 2) false,
    .arrive 0 true,
      .check (sampleCheck 101)] sampleStart (by decide +kernel)

end State

end Copier.Trailing
