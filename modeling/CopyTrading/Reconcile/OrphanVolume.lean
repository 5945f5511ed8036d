import CopyTrading.Reconcile.Drift

/-!
# Reconcile.OrphanVolume — how much `close_orphan` closes

An item of check 6 names the excess of a net position over the signed sum of its copies, and that is what is
closed. An item of check 1 names no volume, and the whole position is closed: one mapping of the position was
looked at, so that says something of all its copies only where there is one at most.
-/

namespace Copier.Reconcile

open List Option

variable {digest : String → String} {b : Books} {a p : ℕ} {item : DriftItem}

namespace Books

/-- The copies inside a position whose master position is open, in volume. -/
def liveTotal (b : Books) (a p : ℕ) : ℕ :=
  (((b.copiesOn a p).filter fun m => b.masterOpen m.masterPositionId).map MappingRow.volume).sum

/-- The copies inside a net position are all on one side. -/
def OneSided (b : Books) (a p : ℕ) : Prop := ∃ side, ∀ m ∈ b.copiesOn a p, b.side m = some side

end Books

theorem byId_of_mem {positions : List PositionSnapshot} {x : PositionSnapshot} (hx : x ∈ positions) :
    ∃ pos, byId positions x.positionId = some pos :=
  isSome_iff_exists.1 (find?_isSome.2 ⟨x, mem_reverse.2 hx, decide_eq_true rfl⟩)

/-! ### Which items there are -/

/-- A whole-position item: its position is in the book, and its last mapping, if any, is of a closed position. -/
structure IsOrphan (b : Books) (item : DriftItem) (a p : ℕ) : Prop where
  account : item.accountId = some a
  position : item.positionId = some p
  volume : item.volume = none
  held : ∃ pos, byId (b.book a) p = some pos
  last : ∀ m, (b.copiesOn a p).getLast? = some m → b.masterOpen m.masterPositionId = false

theorem isOrphan_of_mem (h : item ∈ check1 digest b) : ∃ a p, IsOrphan b item a p := by
  obtain ⟨x, hx, h⟩ := mem_flatMap.1 h
  split_ifs at h with hen
  · obtain ⟨pos, hpos, h⟩ := mem_filterMap.1 h
    have hheld : ∃ pos', byId (b.book x.1) pos.positionId = some pos' := by
      rw [Books.book_of_mem hx]
      exact byId_of_mem hpos
    unfold orphanItem at h
    split_ifs at h
    split at h
    · next m hm =>
      split_ifs at h with hopen
      cases h
      refine ⟨x.1, pos.positionId, rfl, rfl, rfl, hheld, fun m' hm' => ?_⟩
      cases hm.symm.trans hm'
      exact Bool.eq_false_iff.2 hopen
    · next hnone =>
      cases h
      refine ⟨x.1, pos.positionId, rfl, rfl, rfl, hheld, fun m hm => ?_⟩
      cases hnone.symm.trans hm
  · cases h

/-- An excess: the net position holds more than its copies, on their side. -/
structure IsExcess (b : Books) (item : DriftItem) (a p : ℕ) : Prop where
  account : item.accountId = some a
  position : item.positionId = some p
  compared : b.compared a p = true
  pos : ∃ pos, byId (b.book a) p = some pos ∧ ∃ k, item.volume = some k ∧ 0 < k ∧
    (k : ℤ) = pos.volume - (b.expected a p).natAbs

theorem natAbs_signed (side : Side) (v : ℕ) : (signed side v).natAbs = v := by
  cases side
  · exact Int.natAbs_natCast v
  · exact (Int.natAbs_neg _).trans (Int.natAbs_natCast v)

/-- An excess is what the position has beyond the copies. -/
theorem shortOf_excess {expected actual : ℤ} (hne : actual ≠ expected) (h : ¬ 0 < shortOf expected actual) :
    0 < (shortOf expected actual).natAbs ∧
      ((shortOf expected actual).natAbs : ℤ) = actual.natAbs - expected.natAbs := by
  unfold shortOf at h ⊢
  simp only at h ⊢
  split_ifs at h ⊢ <;> omega

/-- The net position of an excess is not short. -/
theorem netItem_not_short (h : netItem digest b a p = some item) (hk : item.kind = .orphanSlavePosition) :
    item = netOf digest b a p ∧ b.actual a p ≠ b.expected a p ∧ ¬ 0 < shortOf (b.expected a p) (b.actual a p) := by
  obtain ⟨⟨-, hne⟩, rfl⟩ := netItem_some.1 h
  refine ⟨rfl, hne, fun hs => ?_⟩
  simp only [netOf, if_pos hs] at hk
  cases hk

/-- What the item of a net position says. -/
theorem netItem_excess (h : netItem digest b a p = some item) (hk : item.kind = .orphanSlavePosition) :
    ∃ pos, byId (b.book a) p = some pos ∧ ∃ k, item.volume = some k ∧ 0 < k ∧
      (k : ℤ) = pos.volume - (b.expected a p).natAbs := by
  obtain ⟨rfl, hne, hshort⟩ := netItem_not_short h hk
  obtain ⟨hpos, hvol⟩ := shortOf_excess hne hshort
  cases hheld : byId (b.book a) p with
  | none =>
    -- without a position there is no excess
    have hactual : b.actual a p = 0 := by simp [Books.actual, hheld]
    rw [hactual] at hpos hvol
    omega
  | some pos =>
    have habs : (b.actual a p).natAbs = pos.volume := by
      simp [Books.actual, hheld, natAbs_signed]
    rw [habs] at hvol
    exact ⟨pos, rfl, _, rfl, hpos, hvol⟩

theorem compared_of_mem {x : ℕ × ℕ} (hx : x ∈ b.comparedKeys) : b.compared x.1 x.2 = true := by
  unfold Books.comparedKeys at hx
  rw [mem_insertionSort, mem_dedup] at hx
  obtain ⟨m, -, hm⟩ := mem_filterMap.1 hx
  obtain ⟨q, -, hq⟩ := bind_eq_some_iff.1 hm
  split_ifs at hq with hc
  cases hq
  exact hc

theorem isExcess_of_mem (h : item ∈ check6 digest b) (hk : item.kind = .orphanSlavePosition) :
    ∃ a p, IsExcess b item a p := by
  obtain ⟨x, hx, h⟩ := mem_filterMap.1 h
  have hpos := netItem_excess h hk
  obtain ⟨-, rfl⟩ := netItem_some.1 h
  exact ⟨x.1, x.2, rfl, rfl, compared_of_mem hx, hpos⟩

/-- The first five checks name no volume, and only the first one tells of orphans. -/
theorem volume_of_checks
    (h : item ∈ check1 digest b ++ check2 digest b ++ check3 digest b ++ check4 digest b ++ check5 digest b) :
    item.volume = none ∧ (item.kind = .orphanSlavePosition → item ∈ check1 digest b) := by
  simp only [mem_append] at h
  rcases h with (((h | h) | h) | h) | h
  · obtain ⟨a, p, ho⟩ := isOrphan_of_mem h
    exact ⟨ho.volume, fun _ => h⟩
  · obtain ⟨m, -, hm⟩ := mem_filterMap.1 h
    obtain ⟨p, -, -, rfl⟩ := missingItem_some.1 hm
    exact ⟨rfl, nofun⟩
  · obtain ⟨x, -, hx⟩ := mem_filterMap.1 h
    split_ifs at hx
    cases hx
    exact ⟨rfl, nofun⟩
  · obtain ⟨m, -, hm⟩ := mem_filterMap.1 h
    obtain ⟨o, -, -, rfl⟩ := unfilledItem_some.1 hm
    exact ⟨rfl, nofun⟩
  · unfold check5 at h
    split_ifs at h
    · cases h
    · obtain ⟨m, -, hm⟩ := mem_filterMap.1 h
      split_ifs at hm
      cases hm
      exact ⟨rfl, nofun⟩

/-- The orphan items are those of the first and of the last check. -/
theorem orphan_cases (h : item ∈ computeDrift digest b) (hk : item.kind = .orphanSlavePosition) :
    (∃ a p, IsOrphan b item a p) ∨ ∃ a p, IsExcess b item a p := by
  unfold computeDrift sortedItems at h
  rw [mem_insertionSort] at h
  rcases mem_append.1 h with h | h
  · exact .inl (isOrphan_of_mem ((volume_of_checks h).2 hk))
  · exact .inr (isExcess_of_mem h hk)

/-! ### What is requested -/

/-- What `close_orphan` has found when it dispatches. -/
theorem closeOrphan_spec {current : List DriftItem} {rows : List MappingRow} {itemId : String}
    {intent : ClosePosition}
    (h : closeOrphan current b rows itemId = .ok intent) :
    ∃ item, current.find? (fun i => i.id = itemId) = some item ∧ item.kind = .orphanSlavePosition ∧
      item.accountId = some intent.slaveAccountId ∧ item.positionId = some intent.positionId ∧
      truthy ((truthy item.volume).or (lookupSlaveVolume b rows intent.slaveAccountId intent.positionId)) =
        some intent.volume ∧ intent.masterPositionId = none := by
  unfold closeOrphan at h
  split at h
  · cases h
  · next item hfind =>
    split_ifs at h with hkind
    split at h
    · next a p ha hp =>
      split at h
      · next volume hv =>
        cases h
        refine ⟨item, hfind, not_not.1 hkind, ?_, ?_, hv, rfl⟩
        · exact (filter_eq_some_iff.1 ha).1
        · exact (filter_eq_some_iff.1 hp).1
      · cases h
    · cases h

theorem truthy_some {k : ℕ} (h : 0 < k) : truthy (some k) = some k := by
  unfold truthy
  rw [filter_some, if_pos (decide_eq_true h.ne')]

theorem volume_of_truthy {o : Option ℕ} {k : ℕ} (h : truthy o = some k) : o = some k :=
  (filter_eq_some_iff.1 h).1

/-- On one side, the signed sum is the sum. -/
theorem OneSided_natAbs (h : b.OneSided a p) :
    (b.expected a p).natAbs = ((b.copiesOn a p).map MappingRow.volume).sum := by
  obtain ⟨side, hside⟩ := h
  have hexp : b.expected a p = signed side (((b.copiesOn a p).map MappingRow.volume).sum) := by
    unfold Books.expected
    generalize b.copiesOn a p = rows at hside
    induction rows with
    | nil => cases side <;> rfl
    | cons m rows ih =>
      rw [map_cons, sum_cons, map_cons, sum_cons, hside m mem_cons_self,
        ih fun m' hm' => hside m' (mem_cons_of_mem m hm')]
      cases side
      · simp [signed]
      · simp only [signed, map_some, getD_some, Nat.cast_add, neg_add]
  rw [hexp, natAbs_signed]

theorem liveTotal_le : b.liveTotal a p ≤ ((b.copiesOn a p).map MappingRow.volume).sum :=
  Sublist.sum_le_sum (filter_sublist.map _) fun _ _ => Nat.zero_le _

/-- Where the last mapping is the only one and of a closed position, no copy is live. -/
theorem IsOrphan.liveTotal (h : IsOrphan b item a p) (hone : (b.copiesOn a p).length ≤ 1) :
    b.liveTotal a p = 0 := by
  have hnone : (b.copiesOn a p).filter (fun m => b.masterOpen m.masterPositionId) = [] := by
    refine filter_eq_nil_iff.2 fun m hm => ?_
    rcases hrows : b.copiesOn a p with _ | ⟨m', _ | ⟨m'', rows⟩⟩
    · rw [hrows] at hm
      cases hm
    · rw [hrows] at hm
      obtain rfl := mem_singleton.1 hm
      rw [h.last m (by rw [hrows]; rfl)]
      exact Bool.false_ne_true
    · rw [hrows] at hone
      simp at hone
  unfold Books.liveTotal
  rw [hnone]
  rfl

/-- The net position 9 of account 2 holds BUY 5; its copies are BUY 3 and SELL 1, of open positions. -/
def sampleNet : Books where
  masterPositions := [⟨1, .buy, 3, ""⟩, ⟨2, .sell, 1, ""⟩]
  slavePositions := [(2, [⟨9, .buy, 5, "copy:m1"⟩])]
  accounts := List.nodup_singleton _
  mappings := [⟨some 1, none, 2, some 9, none, some 3, some (.cm 1 2), .active, 0⟩,
    ⟨some 2, none, 2, some 9, none, some 1, some (.cm 2 2), .active, 0⟩]
  enabledSlaveIds := [2]
  now := 0
  stalePendingAfter := stalePendingAfterS
  dryRun := false
  nettingSlaveIds := [2]
  mappingSides := fun c => if c = .cm 1 2 then some .buy else some .sell

end Copier.Reconcile
