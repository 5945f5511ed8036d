import CopyTrading.Copier.Mappings
import CopyTrading.Lib.Filtered

/-!
# Reconcile.Drift — what the brokers' books and the mappings say of each other (`engine/reconcile.py`)

`compute_drift` compares the books of the master and of the slaves with the mapping rows and reports what does not
fit, in six checks.  Nothing is traded for it: an operator may have the excess of an item closed (`close_orphan`)
or dismiss the item.
-/

namespace Copier.Reconcile

/-! ### Books and rows -/

/-- `PositionSnapshot`, as far as it is compared. -/
structure PositionSnapshot where
  positionId : ℕ
  side : Side
  volume : ℕ
  label : String
  deriving DecidableEq

/-- `{p.position_id: p for p in positions}`. -/
def byId (positions : List PositionSnapshot) (p : ℕ) : Option PositionSnapshot :=
  positions.reverse.find? fun x => x.positionId = p

/-- A row of `mapping_rows`; an adopted position has no client order id. -/
structure MappingRow where
  masterPositionId : Option ℕ
  masterOrderId : Option ℕ
  slaveAccountId : ℕ
  slavePositionId : Option ℕ
  slaveOrderId : Option ℕ
  slaveVolume : Option ℕ
  clientOrderId : Option ClientOrderId
  status : MappingStatus
  createdAt : ℚ
  deriving DecidableEq

/-- An id of 0 counts as none. -/
def truthy (id : Option ℕ) : Option ℕ := id.filter (· ≠ 0)

/-- The row is an active copy inside the position `p` of the account `a`. -/
def MappingRow.isOn (a p : ℕ) (m : MappingRow) : Bool :=
  m.status = .active && m.slaveAccountId = a && truthy m.slavePositionId = some p

/-- `int(m.get('slave_volume') or 0)`. -/
def MappingRow.volume (m : MappingRow) : ℕ := m.slaveVolume.getD 0

/-- What `compute_drift` is given; the order books are not compared. -/
structure Books where
  masterPositions : List PositionSnapshot
  slavePositions : List (ℕ × List PositionSnapshot)
  accounts : (slavePositions.map Prod.fst).Nodup
  mappings : List MappingRow
  enabledSlaveIds : List ℕ
  now : ℚ
  stalePendingAfter : ℚ
  dryRun : Bool
  nettingSlaveIds : List ℕ
  mappingSides : ClientOrderId → Option Side

/-- `STALE_PENDING_AFTER_S`. -/
def stalePendingAfterS : ℚ := 300

/-! ### Items -/

/-- The kinds of drift. -/
inductive DriftKind where
  | orphanSlavePosition | missingSlaveCopy | unmappedMasterPosition | unfilledSlaveOrder | stalePendingCopy
  deriving DecidableEq, Repr

/-- `DriftItem`. -/
structure DriftItem where
  id : String
  kind : DriftKind
  accountId : Option ℕ
  positionId : Option ℕ
  orderId : Option ℕ
  detail : String
  /-- For a net position: how much of it is too little or too much. -/
  volume : Option ℕ
  deriving DecidableEq

/-- `str` of an id. -/
def idText : Option ℕ → String
  | some n => toString n
  | none => "None"

/-- The client order id as the labels have it. -/
def coidText : Option ClientOrderId → String
  | some (.cm p a) => "cm" ++ toString p ++ "." ++ toString a
  | some (.co o a) => "co" ++ toString o ++ "." ++ toString a
  | some (.other text) => text
  | none => "None"

/-- `_signed_volume`. -/
def signedVolume (v : ℤ) : String :=
  if v = 0 then "flat" else (if 0 < v then "BUY " else "SELL ") ++ toString v.natAbs

/-- `"text" in label`, `label.startswith("text")`. -/
def hasText (text label : String) : Bool := text.toList <:+: label.toList

def startsWith (text label : String) : Bool := text.toList <+: label.toList

section Compute

-- `digest` gives the first 12 hex digits of the md5 of a text
variable (digest : String → String)

/-- `_stable_id`. -/
def stableId (parts : List String) : String := digest (String.intercalate "|" parts)

variable (b : Books)

namespace Books

/-- `slave_positions.get(account_id, [])`. -/
def book (a : ℕ) : List PositionSnapshot := ((b.slavePositions.find? fun x => x.1 = a).map Prod.snd).getD []

theorem book_of_mem {b : Books} {x : ℕ × List PositionSnapshot} (hx : x ∈ b.slavePositions) :
    b.book x.1 = x.2 := by
  have hsome : (b.slavePositions.find? fun y => y.1 = x.1).isSome = true :=
    List.find?_isSome.2 ⟨x, hx, decide_eq_true rfl⟩
  obtain ⟨y, hy⟩ := Option.isSome_iff_exists.1 hsome
  have hkey : y.1 = x.1 := by simpa using List.find?_some hy
  obtain rfl : y = x := List.inj_on_of_nodup_map b.accounts (List.mem_of_find?_eq_some hy) hx hkey
  unfold book
  rw [hy]
  rfl

/-- The master position is open. -/
def masterOpen (p : Option ℕ) : Bool := p.any fun p => b.masterPositions.any fun x => x.positionId = p

/-- The active copies inside a position. -/
def copiesOn (a p : ℕ) : List MappingRow := b.mappings.filter (MappingRow.isOn a p)

/-- The side of a copy. -/
def side (m : MappingRow) : Option Side := m.clientOrderId.bind b.mappingSides

/-- `(a, p) in compared`: a net position, with the sides of all its copies known. -/
def compared (a p : ℕ) : Bool :=
  b.nettingSlaveIds.contains a && !(b.copiesOn a p).isEmpty && (b.copiesOn a p).all fun m => (b.side m).isSome

/-- `sorted(compared)`. -/
def comparedKeys : List (ℕ × ℕ) :=
  ((b.mappings.filterMap fun m =>
      (truthy m.slavePositionId).bind fun p =>
        if b.compared m.slaveAccountId p then some (m.slaveAccountId, p) else none).dedup).insertionSort
    fun x y => x.1 < y.1 ∨ x.1 = y.1 ∧ x.2 ≤ y.2

/-- The volume that the copies of a net position add up to. -/
def expected (a p : ℕ) : ℤ :=
  ((b.copiesOn a p).map fun m => ((b.side m).map fun s => signed s m.volume).getD 0).sum

/-- The volume that the net position has. -/
def actual (a p : ℕ) : ℤ := ((byId (b.book a) p).map fun pos => signed pos.side pos.volume).getD 0

end Books

/-! ### The six checks -/

/-- An item of check 1. -/
def orphanOf (a p : ℕ) (detail : String) : DriftItem :=
  ⟨stableId digest ["orphan_slave_position", toString a, toString p], .orphanSlavePosition, some a, some p, none,
    detail, none⟩

/-- 1. A position with a copy's label but without a copy, or with a copy of a position that is gone. -/
def orphanItem (a : ℕ) (pos : PositionSnapshot) : Option DriftItem :=
  if startsWith "copy:" pos.label then
    match (b.copiesOn a pos.positionId).getLast? with
    | some m =>
      if b.masterOpen m.masterPositionId then none
      else some (orphanOf digest a pos.positionId
        ("Mapping exists but master position " ++ idText m.masterPositionId ++ " is gone"))
    | none => some (orphanOf digest a pos.positionId "Labeled copy:* but no active mapping")
  else none

/-- Check 1: copies that are left over. -/
def check1 : List DriftItem :=
  b.slavePositions.flatMap fun x =>
    if x.1 ∈ b.enabledSlaveIds then x.2.filterMap (orphanItem digest b x.1) else []

/-- An item of check 2. -/
def missingOf (a p : ℕ) : DriftItem :=
  ⟨stableId digest ["missing_slave_copy", toString a, toString p], .missingSlaveCopy, some a, some p, none,
    "Active mapping but slave position " ++ toString p ++ " vanished", none⟩

/-- 2. A copy of an open position whose own position is gone. -/
def missingItem (m : MappingRow) : Option DriftItem :=
  (truthy m.slavePositionId).bind fun p =>
    if m.status = .active ∧ m.slaveAccountId ≠ 0 ∧ m.slaveAccountId ∈ b.enabledSlaveIds ∧
        b.compared m.slaveAccountId p = false ∧ b.masterOpen m.masterPositionId = true ∧
        byId (b.book m.slaveAccountId) p = none then
      some (missingOf digest m.slaveAccountId p)
    else none

def check2 : List DriftItem := b.mappings.filterMap (missingItem digest b)

/-- The master position has an active copy. -/
def Books.mapped (p : ℕ) : Bool :=
  b.mappings.any fun m => m.status = .active && truthy m.masterPositionId = some p

/-- An item of check 3. -/
def unmappedOf (p : ℕ) : DriftItem :=
  ⟨stableId digest ["unmapped_master_position", toString p], .unmappedMasterPosition, none, some p, none,
    "Master position " ++ toString p ++ " opened while copier was down", none⟩

/-- 3. A position of the master without copies. -/
def check3 : List DriftItem :=
  b.masterPositions.filterMap fun x =>
    if b.mapped x.positionId then none else some (unmappedOf digest x.positionId)

/-- An item of check 4. -/
def unfilledOf (a o : ℕ) : DriftItem :=
  ⟨stableId digest ["unfilled_slave_order", toString a, toString o], .unfilledSlaveOrder, some a, none, some o,
    "Order mapping linked to master fill but no slave position materialized", none⟩

/-- A position has the label of the pending copy. -/
def Books.materialized (m : MappingRow) : Bool :=
  (b.book m.slaveAccountId).any fun pos => hasText ("copy:o" ++ idText m.masterOrderId) pos.label

/-- 4. A pending copy whose master order was filled, without a position of its label. -/
def unfilledItem (m : MappingRow) : Option DriftItem :=
  (truthy m.slaveOrderId).bind fun o =>
    if m.status = .active ∧ m.slaveAccountId ≠ 0 ∧ (truthy m.masterPositionId).isSome = true ∧
        m.slaveAccountId ∈ b.enabledSlaveIds ∧ b.materialized m = false then
      some (unfilledOf digest m.slaveAccountId o)
    else none

def check4 : List DriftItem := b.mappings.filterMap (unfilledItem digest b)

/-- An item of check 5. -/
def staleOf (m : MappingRow) : DriftItem :=
  let age := b.now - m.createdAt
  ⟨stableId digest ["stale_pending_copy", toString m.slaveAccountId, coidText m.clientOrderId], .stalePendingCopy,
    some m.slaveAccountId, m.masterPositionId, m.masterOrderId,
    "Copy for master " ++
      (if (truthy m.masterPositionId).isSome then "position " ++ idText m.masterPositionId
        else "order " ++ idText m.masterOrderId) ++
      " has been pending for " ++ toString (Int.tdiv age.num age.den) ++
        "s and never activated (client_order_id=" ++
      coidText m.clientOrderId ++ "); the slave may be carrying no exposure for it", none⟩

/-- The copy has been pending for too long. -/
def Books.stale (m : MappingRow) : Prop :=
  m.status = .pending ∧ m.slaveAccountId ∈ b.enabledSlaveIds ∧ b.stalePendingAfter ≤ b.now - m.createdAt

instance (m : MappingRow) : Decidable (b.stale m) := by
  unfold Books.stale
  infer_instance

/-- 5. A copy that has been pending for too long. -/
def check5 : List DriftItem :=
  if b.dryRun then [] else b.mappings.filterMap fun m => if b.stale m then some (staleOf digest b m) else none

/-- What is missing, measured along the side of the copies, or of the position where they cancel. -/
def shortOf (expected actual : ℤ) : ℤ :=
  let direction : ℤ := if 0 < (if expected = 0 then actual else expected) then 1 else -1
  expected.natAbs - actual * direction

/-- An item of check 6. -/
def netOf (a ticket : ℕ) : DriftItem :=
  let expected := b.expected a ticket
  let actual := b.actual a ticket
  let short := shortOf expected actual
  let n := (b.copiesOn a ticket).length
  ⟨stableId digest ["net_volume", toString a, toString ticket],
    if 0 < short then .missingSlaveCopy else .orphanSlavePosition, some a, some ticket, none,
    "Netting position " ++ toString ticket ++ " holds " ++ signedVolume actual ++ " but its " ++ toString n ++
      " active cop" ++ (if n = 1 then "y" else "ies") ++ " sum to " ++ signedVolume expected ++ " (" ++
      (if 0 < short then "short " else "excess ") ++ toString short.natAbs ++ " centilots)",
    some short.natAbs⟩

/-- 6. A net position that holds less or more than its copies. -/
def netItem (a ticket : ℕ) : Option DriftItem :=
  if a ∈ b.enabledSlaveIds ∧ b.actual a ticket ≠ b.expected a ticket then some (netOf digest b a ticket) else none

def check6 : List DriftItem := b.comparedKeys.filterMap fun x => netItem digest b x.1 x.2

/-- All checks, in their order. -/
def checks : List DriftItem :=
  check1 digest b ++ check2 digest b ++ check3 digest b ++ check4 digest b ++ check5 digest b ++ check6 digest b

/-- `drift_items.sort(key=lambda item: item.id)`. -/
def sortedItems (items : List DriftItem) : List DriftItem := items.insertionSort fun x y => x.id ≤ y.id

/-- `compute_drift`. -/
def computeDrift : List DriftItem := sortedItems (checks digest b)

/-- `_apply_dismissals`: what is published. -/
def applyDismissals (dismissed : List String) (items : List DriftItem) : List DriftItem :=
  items.filter fun i => i.id ∉ dismissed

end Compute

/-! ### Which items there are -/

section Items

variable {digest : String → String} {b : Books} {m : MappingRow} {item : DriftItem} {a : ℕ}

open Option

theorem missingItem_some :
    missingItem digest b m = some item ↔ ∃ p, truthy m.slavePositionId = some p ∧ (m.status = .active ∧
      m.slaveAccountId ≠ 0 ∧ m.slaveAccountId ∈ b.enabledSlaveIds ∧ b.compared m.slaveAccountId p = false ∧
      b.masterOpen m.masterPositionId = true ∧ byId (b.book m.slaveAccountId) p = none) ∧
      missingOf digest m.slaveAccountId p = item := by
  unfold missingItem
  rw [bind_eq_some_iff]
  simp only [ite_none_right_eq_some, some.injEq]

theorem unfilledItem_some :
    unfilledItem digest b m = some item ↔ ∃ o, truthy m.slaveOrderId = some o ∧ (m.status = .active ∧
      m.slaveAccountId ≠ 0 ∧ (truthy m.masterPositionId).isSome = true ∧ m.slaveAccountId ∈ b.enabledSlaveIds ∧
      b.materialized m = false) ∧ unfilledOf digest m.slaveAccountId o = item := by
  unfold unfilledItem
  rw [bind_eq_some_iff]
  simp only [ite_none_right_eq_some, some.injEq]

theorem netItem_some {ticket : ℕ} :
    netItem digest b a ticket = some item ↔ (a ∈ b.enabledSlaveIds ∧ b.actual a ticket ≠ b.expected a ticket) ∧
      netOf digest b a ticket = item := by
  unfold netItem
  simp only [ite_none_right_eq_some, some.injEq]

theorem filter_sortedItems (p : DriftItem → Bool) (items : List DriftItem) :
    (sortedItems items).filter p = sortedItems (items.filter p) := by
  have htrans : ∀ x y z : DriftItem, x.id ≤ y.id → y.id ≤ z.id → x.id ≤ z.id := fun _ _ _ h h' => le_trans h h'
  exact Filtered.filter_insertionSort htrans (fun x y => le_total x.id y.id) p items

end Items

/-! ### The remedy -/

/-- `_lookup_slave_volume`: from the books of the last run, else from the mapping rows of now. -/
def lookupSlaveVolume (b : Books) (rows : List MappingRow) (a p : ℕ) : Option ℕ :=
  match byId (b.book a) p with
  | some pos => some pos.volume
  | none =>
    (rows.find? fun m => m.slaveAccountId = a && m.slavePositionId = some p && m.status = .active).bind
      MappingRow.slaveVolume

/-- `close_orphan`: the request that is dispatched, or the error. -/
def closeOrphan (current : List DriftItem) (b : Books) (rows : List MappingRow) (itemId : String) :
    Except String ClosePosition :=
  match current.find? fun i => i.id = itemId with
  | none => .error ("Drift item " ++ itemId ++ " not found")
  | some item =>
    if item.kind ≠ .orphanSlavePosition then .error ("Item " ++ itemId ++ " is not an orphan_slave_position")
    else
      match truthy item.accountId, truthy item.positionId with
      | some a, some p =>
        match truthy ((truthy item.volume).or (lookupSlaveVolume b rows a p)) with
        | some volume => .ok ⟨a, p, volume, none⟩
        | none => .error ("Could not determine volume for position " ++ toString p)
      | _, _ => .error ("Item " ++ itemId ++ " missing account_id or position_id")

end Copier.Reconcile
