import CopyTrading.Copier.Models
import CopyTrading.Lib.Table

/-!
# Copier.Mappings — the `mappings` table and its statements (`db/repo.py`)

One row per client order id.  Every statement of the repository is an insert or an `UPDATE … WHERE`,
and an update acts row by row; so what any sequence of them does to a copy is a function of the
copy's own row.
-/

namespace Copier

/-- `status` of a mapping. -/
inductive MappingStatus where
  | pending | active | closed | failed
  deriving DecidableEq, Repr

/-- `slave_position_id` and `slave_volume`: every statement that sets one of them sets both. -/
structure Held where
  slavePositionId : ℕ
  slaveVolume : ℕ
  deriving DecidableEq

/-- A row of `mappings`. -/
structure Mapping where
  clientOrderId : ClientOrderId
  slaveAccountId : ℕ
  masterPositionId : Option ℕ
  masterOrderId : Option ℕ
  slaveOrderId : Option ℕ
  held : Option Held
  status : MappingStatus
  deriving DecidableEq

/-- `client_order_id TEXT UNIQUE`. -/
instance : Keyed Mapping ClientOrderId := ⟨Mapping.clientOrderId⟩

@[simp] theorem key_mapping (m : Mapping) : Keyed.key m = m.clientOrderId := rfl

/-- The rows, one for each client order id. -/
abbrev Mappings : Type := Table Mapping

/-- `COALESCE(slave_volume, 0)`. -/
def Mapping.volume (m : Mapping) : ℕ := (m.held.map Held.slaveVolume).getD 0

/-- The row's slave position. -/
def Mapping.slavePositionId (m : Mapping) : Option ℕ := m.held.map Held.slavePositionId

/-- `UPDATE mappings SET … WHERE …`. -/
def updateWhere (P : Mapping → Bool) (f : Mapping → Mapping)
    (hf : ∀ m, (f m).clientOrderId = m.clientOrderId) (s : Mappings) : Mappings :=
  s.update (fun m => if P m then f m else m) fun m => by split_ifs; exacts [hf m, rfl]

/-- The same, `MappingNotFound` (`none`) when no row matches. -/
def updateFound (P : Mapping → Bool) (f : Mapping → Mapping)
    (hf : ∀ m, (f m).clientOrderId = m.clientOrderId) (s : Mappings) : Option Mappings :=
  if s.rows.any P then some (updateWhere P f hf s) else none

/-! ### Inserts -/

/-- A row before any report of its copy. -/
def pendingRow (c : ClientOrderId) (a : ℕ) (masterPositionId masterOrderId : Option ℕ) : Mapping :=
  ⟨c, a, masterPositionId, masterOrderId, none, none, .pending⟩

/-- `create_position_mapping`: `ON CONFLICT (client_order_id) DO NOTHING`. -/
def createPositionMapping (p a : ℕ) (c : ClientOrderId) (s : Mappings) : Mappings :=
  s.insert (pendingRow c a (some p) none)

/-- `create_order_mapping`: a plain insert, refused (`none`) for a client order id in use. -/
def createOrderMapping (o a : ℕ) (c : ClientOrderId) (s : Mappings) : Option Mappings :=
  if (s.find c).isSome then none else some (s.insert (pendingRow c a none (some o)))

/-! ### Updates -/

/-- `WHERE client_order_id = … AND slave_account_id = …`. -/
def Mapping.isCopy (a : ℕ) (c : ClientOrderId) (m : Mapping) : Bool :=
  m.clientOrderId = c && m.slaveAccountId = a

/-- `WHERE slave_account_id = … AND slave_order_id = … AND status = 'active'`. -/
def Mapping.isOrder (a : ℕ) (slaveOrderId : Option ℕ) (m : Mapping) : Bool :=
  m.slaveAccountId = a && m.slaveOrderId.isSome && m.slaveOrderId = slaveOrderId &&
    m.status = .active

/-- The filled volume is added. -/
def Mapping.accumulate (π v : ℕ) (m : Mapping) : Mapping :=
  { m with held := some ⟨π, m.volume + v⟩, status := .active }

/-- `activate_position_mapping`. -/
def activatePositionMapping (a : ℕ) (c : ClientOrderId) (π v : ℕ) : Mappings → Option Mappings :=
  updateFound (Mapping.isCopy a c) (Mapping.accumulate π v) fun _ => rfl

/-- The closed volume is deducted; a row at 0 is closed. -/
def Mapping.reduce (k : ℕ) (m : Mapping) : Mapping :=
  { m with
    held := m.held.map fun h => { h with slaveVolume := h.slaveVolume - k }
    status := if m.held.any fun h => h.slaveVolume ≤ k then .closed else .active }

/-- Which active rows a close reduces: the one it names, or all of its position. -/
def Mapping.isReduced (a π : ℕ) (c : Option ClientOrderId) (m : Mapping) : Bool :=
  m.slaveAccountId = a && m.status = .active &&
    (match c with
      | none => m.slavePositionId = some π
      | some c => m.clientOrderId = c)

/-- `reduce_position_mapping`. -/
def reducePositionMapping (a π k : ℕ) (c : Option ClientOrderId) : Mappings → Mappings :=
  updateWhere (Mapping.isReduced a π c) (Mapping.reduce k) fun _ => rfl

/-- `fail_mapping`. -/
def failMapping (a : ℕ) (c : ClientOrderId) : Mappings → Option Mappings :=
  updateFound (Mapping.isCopy a c) (fun m => { m with status := .failed }) fun _ => rfl

/-- The mapping half of `fail_stale_mt5_opens`: pending rows of the expired commands. -/
def failStaleOpen (a : ℕ) (c : ClientOrderId) : Mappings → Mappings :=
  updateWhere (fun m => m.isCopy a c && m.status = .pending) (fun m => { m with status := .failed })
    fun _ => rfl

/-- `activate_order_mapping`. -/
def activateOrderMapping (a : ℕ) (c : ClientOrderId) (ω : ℕ) : Mappings → Option Mappings :=
  updateFound (Mapping.isCopy a c) (fun m => { m with slaveOrderId := some ω, status := .active })
    fun _ => rfl

/-- `close_order_mapping`. -/
def closeOrderMapping (a ω : ℕ) : Mappings → Option Mappings :=
  updateFound (Mapping.isOrder a (some ω)) (fun m => { m with status := .closed }) fun _ => rfl

/-- `link_pending_fill`. -/
def linkPendingFill (o a p : ℕ) : Mappings → Option Mappings :=
  updateFound (fun m => m.masterOrderId = some o && m.slaveAccountId = a && m.status = .active)
    (fun m => { m with masterPositionId := some p }) fun _ => rfl

/-- `activate_pending_fill`: the filled volume is assigned, not added. -/
def activatePendingFill (a : ℕ) (slaveOrderId : Option ℕ) (π v : ℕ) : Mappings → Option Mappings :=
  updateFound (Mapping.isOrder a slaveOrderId)
    (fun m => { m with held := some ⟨π, v⟩, status := .active }) fun _ => rfl

/-! ### Reads -/

/-- `position_entries`. -/
def positionEntries (s : Mappings) (p : ℕ) : List PositionMappingEntry :=
  s.rows.filterMap fun m =>
    if m.masterPositionId = some p ∧ m.status = .active then
      m.held.map fun h => ⟨m.slaveAccountId, h.slavePositionId, h.slaveVolume⟩
    else none

/-- `order_entries`. -/
def orderEntries (s : Mappings) (o : ℕ) : List OrderMappingEntry :=
  s.rows.filterMap fun m =>
    if m.masterOrderId = some o ∧ m.status = .active then
      m.slaveOrderId.map fun ω => ⟨m.slaveAccountId, ω⟩
    else none

/-! ### What a statement does to one row -/

section Find

variable {P : Mapping → Bool} {f : Mapping → Mapping}
  (hf : ∀ m, (f m).clientOrderId = m.clientOrderId) {s : Mappings} {c : ClientOrderId}

theorem find_updateWhere :
    (updateWhere P f hf s).find c = (s.find c).map fun m => if P m then f m else m :=
  Table.find_update s c

/-- An update that finds nothing changes nothing, so both forms rewrite the same rows. -/
theorem rows_updateFound :
    ((updateFound P f hf s).getD s).rows = s.rows.map fun m => if P m then f m else m := by
  unfold updateFound
  split_ifs with h
  · rfl
  · simp only [List.any_eq_true, not_exists, not_and, Bool.not_eq_true] at h
    refine (List.map_id s.rows).symm.trans (List.map_congr_left fun m hm => ?_)
    rw [h m hm]
    rfl

theorem find_updateFound :
    ((updateFound P f hf s).getD s).find c = (s.find c).map fun m => if P m then f m else m := by
  unfold updateFound
  split_ifs with h
  · exact find_updateWhere hf
  · simp only [List.any_eq_true, not_exists, not_and, Bool.not_eq_true] at h
    cases hm : s.find c with
    | none => simp [hm]
    | some m => simp [hm, h m (Table.find_eq_some hm).1]

theorem mem_positionEntries {p : ℕ} {e : PositionMappingEntry} :
    e ∈ positionEntries s p ↔ ∃ m ∈ s.rows, m.masterPositionId = some p ∧ m.status = .active ∧
      ∃ h, m.held = some h ∧ e = ⟨m.slaveAccountId, h.slavePositionId, h.slaveVolume⟩ := by
  simp only [positionEntries, List.mem_filterMap]
  constructor
  · rintro ⟨m, hm, he⟩
    split_ifs at he with hc
    obtain ⟨h, hh, rfl⟩ := Option.map_eq_some_iff.1 he
    exact ⟨m, hm, hc.1, hc.2, h, hh, rfl⟩
  · rintro ⟨m, hm, hp, hs, h, hh, rfl⟩
    exact ⟨m, hm, by rw [if_pos ⟨hp, hs⟩, hh]; rfl⟩

theorem mem_orderEntries {o : ℕ} {e : OrderMappingEntry} :
    e ∈ orderEntries s o ↔ ∃ m ∈ s.rows, m.masterOrderId = some o ∧ m.status = .active ∧
      ∃ ω, m.slaveOrderId = some ω ∧ e = ⟨m.slaveAccountId, ω⟩ := by
  simp only [orderEntries, List.mem_filterMap]
  constructor
  · rintro ⟨m, hm, he⟩
    split_ifs at he with hc
    obtain ⟨ω, hω, rfl⟩ := Option.map_eq_some_iff.1 he
    exact ⟨m, hm, hc.1, hc.2, ω, hω, rfl⟩
  · rintro ⟨m, hm, hp, hs, ω, hω, rfl⟩
    exact ⟨m, hm, by rw [if_pos ⟨hp, hs⟩, hω]; rfl⟩

end Find

end Copier
