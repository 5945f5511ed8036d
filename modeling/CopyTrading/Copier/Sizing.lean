import CopyTrading.Copier.Models

/-!
# Copier.Sizing — lots and protocol volumes (`domain/sizing.py`)

A copy's volume is the master's volume scaled to the slave's lots, rounded half-up and then floored
to the slave's step; a partial close takes the master's share of the copy, floored to the step.
`Decimal` arithmetic is taken as exact.
-/

namespace Copier

/-- `protocol_volume_to_lots`. -/
def protocolVolumeToLots (volume : ℕ) (lotSize : ℕ+) : ℚ := (volume : ℚ) / (lotSize : ℕ)

/-- `lots_to_protocol_volume`: half-up to a whole number of units (`lots` is not negative). -/
def lotsToProtocolVolume (lots : ℚ) (lotSize : ℕ+) : ℕ := ⌊lots * (lotSize : ℕ) + 1 / 2⌋₊

/-- `floor_to_step`. -/
def floorToStep (volume stepVolume : ℕ) : ℕ :=
  if stepVolume = 0 then volume else volume / stepVolume * stepVolume

/-- `mirror_volume`. -/
def mirrorVolume (masterVolume : ℕ) (masterLotSize : ℕ+) (multiplier : ℚ) (slaveLotSize : ℕ+)
    (slaveStepVolume : ℕ) : ℕ :=
  let lots := protocolVolumeToLots masterVolume masterLotSize * multiplier
  floorToStep (lotsToProtocolVolume lots slaveLotSize) slaveStepVolume

/-- `partial_close_volume`. -/
def partialCloseVolume (slaveVolume closedVolume remainingVolume stepVolume : ℕ) : ℕ :=
  if remainingVolume = 0 then slaveVolume
  else
    min (floorToStep (slaveVolume * closedVolume / (closedVolume + remainingVolume)) stepVolume)
      slaveVolume

/-! ### Flooring to the step -/

section Step

variable {v w k : ℕ}

theorem floorToStep_le (v k : ℕ) : floorToStep v k ≤ v := by
  unfold floorToStep
  split_ifs
  · exact le_rfl
  · exact Nat.div_mul_le_self v k

theorem dvd_floorToStep (hk : 1 ≤ k) : k ∣ floorToStep v k := by
  rw [floorToStep, if_neg (by omega)]
  exact Nat.dvd_mul_left k (v / k)

theorem lt_floorToStep_add (hk : 1 ≤ k) : v < floorToStep v k + k := by
  rw [floorToStep, if_neg (by omega)]
  exact Nat.lt_div_mul_add (by omega)

theorem floorToStep_mono (h : v ≤ w) : floorToStep v k ≤ floorToStep w k := by
  unfold floorToStep
  split_ifs
  · exact h
  · exact Nat.mul_le_mul_right k (Nat.div_le_div_right h)

end Step

/-! ### Mirrored volumes -/

/-- The exact proportional volume of a copy. -/
def exactVolume (masterVolume : ℕ) (masterLotSize : ℕ+) (multiplier : ℚ) (slaveLotSize : ℕ+) : ℚ :=
  protocolVolumeToLots masterVolume masterLotSize * multiplier * (slaveLotSize : ℕ)

section Mirror

variable {d d' : ℕ} {ml sl : ℕ+} {mult : ℚ} {k : ℕ}

theorem exactVolume_nonneg (d : ℕ) (ml sl : ℕ+) (hm : 0 < mult) : 0 ≤ exactVolume d ml mult sl := by
  unfold exactVolume protocolVolumeToLots
  positivity

theorem exactVolume_mono (ml sl : ℕ+) (hm : 0 < mult) (h : d ≤ d') :
    exactVolume d ml mult sl ≤ exactVolume d' ml mult sl := by
  unfold exactVolume protocolVolumeToLots
  have hd : (d : ℚ) ≤ d' := by exact_mod_cast h
  gcongr

theorem mirrorVolume_mono (hm : 0 < mult) (h : d ≤ d') :
    mirrorVolume d ml mult sl k ≤ mirrorVolume d' ml mult sl k := by
  have hx := exactVolume_mono ml sl hm h
  unfold exactVolume at hx
  exact floorToStep_mono (Nat.floor_mono (by linarith))

theorem dvd_mirrorVolume (hk : 1 ≤ k) : k ∣ mirrorVolume d ml mult sl k := dvd_floorToStep hk

/-- The copy of `d` is at most half a unit above the exact volume. -/
theorem mirrorVolume_le (hm : 0 < mult) :
    (mirrorVolume d ml mult sl k : ℚ) ≤ exactVolume d ml mult sl + 1 / 2 := by
  have hx := exactVolume_nonneg d ml sl hm
  have hf : (mirrorVolume d ml mult sl k : ℚ) ≤
      (lotsToProtocolVolume (protocolVolumeToLots d ml * mult) sl : ℚ) := by
    exact_mod_cast floorToStep_le _ _
  refine hf.trans (Nat.floor_le ?_)
  unfold exactVolume at hx
  linarith

/-- The copy of `d` is less than a step and half a unit below the exact volume. -/
theorem lt_mirrorVolume (hk : 1 ≤ k) :
    exactVolume d ml mult sl - k - 1 / 2 < (mirrorVolume d ml mult sl k : ℚ) := by
  have h1 : exactVolume d ml mult sl + 1 / 2 <
      (lotsToProtocolVolume (protocolVolumeToLots d ml * mult) sl : ℚ) + 1 := Nat.lt_floor_add_one _
  have h2 : lotsToProtocolVolume (protocolVolumeToLots d ml * mult) sl + 1 ≤
      mirrorVolume d ml mult sl k + k := lt_floorToStep_add hk
  have h3 : (lotsToProtocolVolume (protocolVolumeToLots d ml * mult) sl : ℚ) + 1 ≤
      (mirrorVolume d ml mult sl k : ℚ) + k := by exact_mod_cast h2
  linarith

end Mirror

/-! ### Partial closes -/

section Close

variable {s c r k : ℕ}

theorem partialCloseVolume_le (s c r k : ℕ) : partialCloseVolume s c r k ≤ s := by
  unfold partialCloseVolume
  split_ifs
  · exact le_rfl
  · exact min_le_right _ _

theorem partialCloseVolume_full (s c k : ℕ) : partialCloseVolume s c 0 k = s := if_pos rfl

/-- The share of the copy is within the copy, so the `min` never takes effect. -/
theorem partialCloseVolume_share (hr : r ≠ 0) :
    partialCloseVolume s c r k = floorToStep (s * c / (c + r)) k := by
  rw [partialCloseVolume, if_neg hr]
  refine min_eq_left ((floorToStep_le _ _).trans ?_)
  refine Nat.div_le_of_le_mul ?_
  rw [mul_comm (c + r)]
  exact Nat.mul_le_mul_left s (by omega)

theorem dvd_partialCloseVolume (hk : 1 ≤ k) (hs : k ∣ s) : k ∣ partialCloseVolume s c r k := by
  by_cases hr : r = 0
  · rw [hr, partialCloseVolume_full]
    exact hs
  · rw [partialCloseVolume_share hr]
    exact dvd_floorToStep hk

/-- A partial close never takes more than the master's share. -/
theorem mul_partialCloseVolume_le (hr : r ≠ 0) :
    partialCloseVolume s c r k * (c + r) ≤ s * c := by
  rw [partialCloseVolume_share hr]
  calc floorToStep (s * c / (c + r)) k * (c + r)
      ≤ s * c / (c + r) * (c + r) := Nat.mul_le_mul_right _ (floorToStep_le _ _)
    _ ≤ s * c := Nat.div_mul_le_self _ _

/-- A partial close leaves at least the master's remaining share of the copy … -/
theorem le_mul_sub_partialCloseVolume (hr : r ≠ 0) :
    s * r ≤ (s - partialCloseVolume s c r k) * (c + r) := by
  have h := mul_partialCloseVolume_le (s := s) (c := c) (k := k) hr
  rw [Nat.sub_mul]
  have he : s * (c + r) = s * c + s * r := Nat.mul_add s c r
  omega

/-- … and less than a step more. -/
theorem mul_sub_partialCloseVolume_lt (hk : 1 ≤ k) (hr : r ≠ 0) :
    (s - partialCloseVolume s c r k) * (c + r) < s * r + k * (c + r) := by
  have hle := Nat.mul_le_mul_right (c + r) (partialCloseVolume_le s c r k)
  have hlt : s * c / (c + r) < partialCloseVolume s c r k + k := by
    rw [partialCloseVolume_share hr]
    exact lt_floorToStep_add hk
  have hmul := (Nat.div_lt_iff_lt_mul (by omega)).1 hlt
  rw [Nat.add_mul] at hmul
  have he : s * (c + r) = s * c + s * r := Nat.mul_add s c r
  rw [Nat.sub_mul]
  omega

end Close

end Copier
