import CopyTrading.Copier.Mappings
import CopyTrading.Copier.Sizing

/-!
# Copier.Decision — the pure decision core (`domain/decision.py`)

`decide` turns a master event into intents for the enabled slaves.  A slave without a mapped copy
gets an alert only: the core sees no copy that has not been reported yet.
-/

namespace Copier

open List

variable {slaves : List SlaveConfig} {i : SlaveIntent}

/-- `MappingState`: what the core reads of the repository. -/
structure MappingState where
  positionEntries : ℕ → List PositionMappingEntry
  orderEntries : ℕ → List OrderMappingEntry

/-- `f"{x!r}"` of a symbol name. -/
def quoted (name : String) : String := "'" ++ name ++ "'"

/-- `_enabled`. -/
def enabledSlaves (slaves : List SlaveConfig) : List SlaveConfig := slaves.filter (·.enabled)

/-- `_by_id`: a later record of an account replaces an earlier one. -/
def byId (slaves : List SlaveConfig) (a : ℕ) : Option SlaveConfig :=
  (enabledSlaves slaves).reverse.find? (·.accountId = a)

/-- An alert for every enabled account that is not covered. -/
def uncovered (slaves : List SlaveConfig) (covered : List ℕ) (message : String) :
    List SlaveIntent :=
  (((enabledSlaves slaves).map (·.accountId)).dedup.filter (· ∉ covered)).map
    fun a => .alert ⟨a, message⟩

/-- The accounts of the entries whose slave is enabled. -/
def coveredBy (slaves : List SlaveConfig) (accounts : List ℕ) : List ℕ :=
  accounts.filter fun a => (byId slaves a).isSome

/-- `_position_opened`, for one slave. -/
def openFor (e : MasterPositionOpened) (s : SlaveConfig) : SlaveIntent :=
  match s.symbols e.symbolName with
  | none => .alert ⟨s.accountId, "cannot copy position " ++ toString e.positionId ++ ": symbol " ++
      quoted e.symbolName ++ " not available"⟩
  | some sym =>
    let vol := mirrorVolume e.volume e.lotSize s.multiplier.1 sym.lotSize sym.stepVolume
    if vol = 0 then
      .alert ⟨s.accountId, "cannot copy position " ++ toString e.positionId ++
        ": mirrored volume rounds to 0"⟩
    else
      .openMarket ⟨s.accountId, e.positionId, sym.symbolId, e.side, vol, e.levels,
        "copy:m" ++ toString e.positionId, e.symbolName, e.entryPrice⟩

/-- `_position_opened`. -/
def positionOpened (e : MasterPositionOpened) (slaves : List SlaveConfig) : List SlaveIntent :=
  (enabledSlaves slaves).map (openFor e)

/-- The close of one entry. -/
def closeFor (e : MasterPositionClosed) (s : SlaveConfig) (entry : PositionMappingEntry) :
    SlaveIntent :=
  let step := match s.symbols e.symbolName with
    | some sym => sym.stepVolume
    | none => 1
  let vol := partialCloseVolume entry.slaveVolume e.closedVolume e.remainingVolume step
  if vol = 0 then
    .alert ⟨s.accountId, "partial close of position " ++ toString e.positionId ++
      " rounds to 0 on slave"⟩
  else .closePosition ⟨s.accountId, entry.slavePositionId, vol, some e.positionId⟩

/-- `_position_closed`. -/
def positionClosed (e : MasterPositionClosed) (mappings : MappingState) (slaves : List SlaveConfig) :
    List SlaveIntent :=
  let entries := mappings.positionEntries e.positionId
  entries.filterMap (fun entry => (byId slaves entry.slaveAccountId).map fun s => closeFor e s entry) ++
    uncovered slaves (coveredBy slaves (entries.map (·.slaveAccountId)))
      ("master closed position " ++ toString e.positionId ++ " but slave has no mapped copy")

/-- `_position_sltp`. -/
def positionSltp (e : MasterPositionSLTPAmended) (mappings : MappingState)
    (slaves : List SlaveConfig) : List SlaveIntent :=
  let entries := mappings.positionEntries e.positionId
  entries.filterMap (fun entry => (byId slaves entry.slaveAccountId).map fun _ =>
      .amendPositionSLTP ⟨entry.slaveAccountId, entry.slavePositionId, e.levels⟩) ++
    uncovered slaves (coveredBy slaves (entries.map (·.slaveAccountId)))
      ("SL/TP change on master position " ++ toString e.positionId ++ " but slave has no mapped copy")

/-- `_decide_pending` of a placed order, for one slave. -/
def placeFor (e : MasterPendingPlaced) (s : SlaveConfig) : SlaveIntent :=
  match s.symbols e.symbolName with
  | none => .alert ⟨s.accountId, "cannot copy order " ++ toString e.orderId ++ ": symbol " ++
      quoted e.symbolName ++ " not available"⟩
  | some sym =>
    let vol := mirrorVolume e.volume e.lotSize s.multiplier.1 sym.lotSize sym.stepVolume
    if vol = 0 then
      .alert ⟨s.accountId, "cannot copy order " ++ toString e.orderId ++
        ": mirrored volume rounds to 0"⟩
    else
      .placePending ⟨s.accountId, e.orderId, sym.symbolId, e.side, e.orderType, vol, e.price, e.levels,
        e.expiryTsMs, "copy:o" ++ toString e.orderId, e.symbolName⟩

/-- `_decide_pending` of a placed order. -/
def pendingPlaced (e : MasterPendingPlaced) (slaves : List SlaveConfig) : List SlaveIntent :=
  (enabledSlaves slaves).map (placeFor e)

/-- The amend of one entry. -/
def replaceFor (e : MasterPendingReplaced) (s : SlaveConfig) (entry : OrderMappingEntry) :
    SlaveIntent :=
  match s.symbols e.symbolName with
  | none => .alert ⟨s.accountId, "cannot amend order copy of " ++ toString e.orderId ++
      ": symbol missing"⟩
  | some sym =>
    let vol := mirrorVolume e.volume e.lotSize s.multiplier.1 sym.lotSize sym.stepVolume
    if vol = 0 then
      .alert ⟨s.accountId, "cannot amend order " ++ toString e.orderId ++
        ": mirrored volume rounds to 0"⟩
    else .amendPending ⟨s.accountId, entry.slaveOrderId, e.orderType, vol, e.price, e.levels⟩

/-- `_decide_pending` of a replaced order. -/
def pendingReplaced (e : MasterPendingReplaced) (mappings : MappingState)
    (slaves : List SlaveConfig) : List SlaveIntent :=
  let entries := mappings.orderEntries e.orderId
  entries.filterMap (fun entry => (byId slaves entry.slaveAccountId).map fun s =>
      replaceFor e s entry) ++
    uncovered slaves (coveredBy slaves (entries.map (·.slaveAccountId)))
      ("master replaced order " ++ toString e.orderId ++ " but slave has no mapped order")

/-- `_decide_pending` of a cancelled order. -/
def pendingCancelled (o : ℕ) (mappings : MappingState) (slaves : List SlaveConfig) :
    List SlaveIntent :=
  let entries := mappings.orderEntries o
  entries.filterMap (fun entry => (byId slaves entry.slaveAccountId).map fun _ =>
      .cancelPending ⟨entry.slaveAccountId, entry.slaveOrderId⟩) ++
    uncovered slaves (coveredBy slaves (entries.map (·.slaveAccountId)))
      ("master cancelled order " ++ toString o ++ " but slave has no mapped order")

/-- `_decide_pending` of a filled order. -/
def pendingFilled (o p : ℕ) (mappings : MappingState) (slaves : List SlaveConfig) :
    List SlaveIntent :=
  let entries := mappings.orderEntries o
  entries.filterMap (fun entry => (byId slaves entry.slaveAccountId).map fun _ =>
      .linkPendingFill ⟨entry.slaveAccountId, o, p⟩) ++
    uncovered slaves (coveredBy slaves (entries.map (·.slaveAccountId)))
      ("master order " ++ toString o ++ " filled but slave has no mapped order")

/-- `decide`. -/
def decide (event : MasterEvent) (mappings : MappingState) (slaves : List SlaveConfig) :
    List SlaveIntent :=
  match event with
  | .positionOpened e => positionOpened e slaves
  | .positionClosed e => positionClosed e mappings slaves
  | .positionSLTPAmended e => positionSltp e mappings slaves
  | .rejected _ => []
  | .pendingPlaced e => pendingPlaced e slaves
  | .pendingReplaced e => pendingReplaced e mappings slaves
  | .pendingCancelled o => pendingCancelled o mappings slaves
  | .pendingFilled o p => pendingFilled o p mappings slaves

/-! ### What is asked of a slave -/

theorem openFor_cases (e : MasterPositionOpened) (s : SlaveConfig) :
    (∃ text, openFor e s = .alert ⟨s.accountId, text⟩) ∨
    ∃ i, openFor e s = .openMarket i ∧ i.slaveAccountId = s.accountId ∧
      i.masterPositionId = e.positionId ∧ 0 < i.volume ∧ i.levels = e.levels := by
  unfold openFor
  split
  · exact .inl ⟨_, rfl⟩
  · dsimp only
    split_ifs with hv
    · exact .inl ⟨_, rfl⟩
    · exact .inr ⟨_, rfl, rfl, rfl, Nat.pos_of_ne_zero hv, rfl⟩

theorem placeFor_cases (e : MasterPendingPlaced) (s : SlaveConfig) :
    (∃ text, placeFor e s = .alert ⟨s.accountId, text⟩) ∨
    ∃ i, placeFor e s = .placePending i ∧ i.slaveAccountId = s.accountId ∧
      i.masterOrderId = e.orderId ∧ 0 < i.volume ∧ i.levels = e.levels := by
  unfold placeFor
  split
  · exact .inl ⟨_, rfl⟩
  · dsimp only
    split_ifs with hv
    · exact .inl ⟨_, rfl⟩
    · exact .inr ⟨_, rfl, rfl, rfl, Nat.pos_of_ne_zero hv, rfl⟩

theorem replaceFor_cases (e : MasterPendingReplaced) (s : SlaveConfig) (entry : OrderMappingEntry) :
    (∃ text, replaceFor e s entry = .alert ⟨s.accountId, text⟩) ∨
    ∃ v, 0 < v ∧ replaceFor e s entry =
      .amendPending ⟨s.accountId, entry.slaveOrderId, e.orderType, v, e.price, e.levels⟩ := by
  unfold replaceFor
  split
  · exact .inl ⟨_, rfl⟩
  · dsimp only
    split_ifs with hv
    · exact .inl ⟨_, rfl⟩
    · exact .inr ⟨_, Nat.pos_of_ne_zero hv, rfl⟩

theorem closeFor_cases (e : MasterPositionClosed) (s : SlaveConfig) (entry : PositionMappingEntry) :
    (∃ text, closeFor e s entry = .alert ⟨s.accountId, text⟩) ∨
    ∃ v, closeFor e s entry =
      .closePosition ⟨s.accountId, entry.slavePositionId, v, some e.positionId⟩ := by
  unfold closeFor
  dsimp only
  split_ifs
  · exact .inl ⟨_, rfl⟩
  · exact .inr ⟨_, rfl⟩

theorem openFor_account (e : MasterPositionOpened) (s : SlaveConfig) :
    (openFor e s).slaveAccountId = s.accountId := by
  rcases openFor_cases e s with ⟨_, h⟩ | ⟨i, h, ha, -⟩
  · rw [h]
    rfl
  · rw [h]
    exact ha

theorem placeFor_account (e : MasterPendingPlaced) (s : SlaveConfig) :
    (placeFor e s).slaveAccountId = s.accountId := by
  rcases placeFor_cases e s with ⟨_, h⟩ | ⟨i, h, ha, -⟩
  · rw [h]
    rfl
  · rw [h]
    exact ha

theorem closeFor_account (e : MasterPositionClosed) (s : SlaveConfig) (entry : PositionMappingEntry) :
    (closeFor e s entry).slaveAccountId = s.accountId := by
  rcases closeFor_cases e s entry with ⟨_, h⟩ | ⟨_, h⟩ <;> rw [h] <;> rfl

theorem replaceFor_account (e : MasterPendingReplaced) (s : SlaveConfig) (entry : OrderMappingEntry) :
    (replaceFor e s entry).slaveAccountId = s.accountId := by
  rcases replaceFor_cases e s entry with ⟨_, h⟩ | ⟨_, -, h⟩ <;> rw [h] <;> rfl

/-- Everything the decision core asks for. -/
inductive Decided (ms : MappingState) (slaves : List SlaveConfig) : MasterEvent → SlaveIntent → Prop
  | alert (e : MasterEvent) (i : Alert) : Decided ms slaves e (.alert i)
  | openMarket (e : MasterPositionOpened) (sl : SlaveConfig) (i : OpenMarket) (hsl : sl ∈ slaves)
      (hi : openFor e sl = .openMarket i) (ha : i.slaveAccountId = sl.accountId)
      (hp : i.masterPositionId = e.positionId) (hv : 0 < i.volume) (hL : i.levels = e.levels) :
      Decided ms slaves (.positionOpened e) (.openMarket i)
  | placePending (e : MasterPendingPlaced) (sl : SlaveConfig) (i : PlacePending) (hsl : sl ∈ slaves)
      (hi : placeFor e sl = .placePending i) (ha : i.slaveAccountId = sl.accountId)
      (ho : i.masterOrderId = e.orderId) (hv : 0 < i.volume) (hL : i.levels = e.levels) :
      Decided ms slaves (.pendingPlaced e) (.placePending i)
  | closePosition (e : MasterPositionClosed) (i : ClosePosition) :
      Decided ms slaves (.positionClosed e) (.closePosition i)
  | amendPositionSLTP (e : MasterPositionSLTPAmended) (entry : PositionMappingEntry)
      (h : entry ∈ ms.positionEntries e.positionId) : Decided ms slaves (.positionSLTPAmended e)
        (.amendPositionSLTP ⟨entry.slaveAccountId, entry.slavePositionId, e.levels⟩)
  | amendPending (e : MasterPendingReplaced) (entry : OrderMappingEntry) (sl : SlaveConfig) (v : ℕ)
      (h : entry ∈ ms.orderEntries e.orderId) (hby : byId slaves entry.slaveAccountId = some sl)
      (hv : 0 < v) : Decided ms slaves (.pendingReplaced e)
        (.amendPending ⟨sl.accountId, entry.slaveOrderId, e.orderType, v, e.price, e.levels⟩)
  | cancelPending (o : ℕ) (i : CancelPending) : Decided ms slaves (.pendingCancelled o) (.cancelPending i)
  | linkPendingFill (o p a : ℕ) : Decided ms slaves (.pendingFilled o p) (.linkPendingFill ⟨a, o, p⟩)

/-- An intent made from an entry of an enabled slave. -/
theorem mem_forEntries {ε : Type} {entries : List ε} {acc : ε → ℕ}
    {f : SlaveConfig → ε → SlaveIntent}
    (h : i ∈ entries.filterMap fun entry => (byId slaves (acc entry)).map fun s => f s entry) :
    ∃ entry ∈ entries, ∃ s, byId slaves (acc entry) = some s ∧ i = f s entry := by
  obtain ⟨entry, he, hi⟩ := mem_filterMap.1 h
  obtain ⟨s, hs, rfl⟩ := Option.map_eq_some_iff.1 hi
  exact ⟨entry, he, s, hs, rfl⟩

theorem forEntries_mem {ε : Type} {entries : List ε} {acc : ε → ℕ}
    {f : SlaveConfig → ε → SlaveIntent} {entry : ε} {sl : SlaveConfig} (h : entry ∈ entries)
    (hs : byId slaves (acc entry) = some sl) :
    f sl entry ∈ entries.filterMap fun entry => (byId slaves (acc entry)).map fun s => f s entry :=
  mem_filterMap.2 ⟨entry, h, by rw [hs]; rfl⟩

theorem mem_uncovered {covered : List ℕ} {message : String}
    (h : i ∈ uncovered slaves covered message) : ∃ b, i = .alert ⟨b, message⟩ := by
  obtain ⟨b, -, rfl⟩ := mem_map.1 h
  exact ⟨b, rfl⟩

theorem decided {e : MasterEvent} {ms : MappingState}
    (h : i ∈ decide e ms slaves) : Decided ms slaves e i := by
  have hentries : ∀ {ε : Type} {entries : List ε} {acc : ε → ℕ} {f : SlaveConfig → ε → SlaveIntent}
      {covered message}, i ∈ (entries.filterMap fun x => (byId slaves (acc x)).map fun s => f s x) ++
        uncovered slaves covered message →
      (∀ x ∈ entries, ∀ s, byId slaves (acc x) = some s → Decided ms slaves e (f s x)) →
      Decided ms slaves e i := by
    intro ε entries acc f covered message h hf
    rcases mem_append.1 h with h | h
    · obtain ⟨x, hx, s, hs, rfl⟩ := mem_forEntries h
      exact hf x hx s hs
    · obtain ⟨b, rfl⟩ := mem_uncovered h
      exact .alert e _
  cases e with
  | positionOpened e =>
    obtain ⟨sl, hsl, rfl⟩ := mem_map.1 h
    rcases openFor_cases e sl with ⟨_, hi⟩ | ⟨i, hi, ha, hp, hv, hL⟩
    · rw [hi]
      exact .alert _ _
    · rw [hi]
      exact .openMarket e sl i (mem_of_mem_filter hsl) hi ha hp hv hL
  | pendingPlaced e =>
    obtain ⟨sl, hsl, rfl⟩ := mem_map.1 h
    rcases placeFor_cases e sl with ⟨_, hi⟩ | ⟨i, hi, ha, ho, hv, hL⟩
    · rw [hi]
      exact .alert _ _
    · rw [hi]
      exact .placePending e sl i (mem_of_mem_filter hsl) hi ha ho hv hL
  | positionClosed e =>
    refine hentries h fun entry _ sl _ => ?_
    rcases closeFor_cases e sl entry with ⟨_, hi⟩ | ⟨_, hi⟩
    · rw [hi]
      exact .alert _ _
    · rw [hi]
      exact .closePosition e _
  | positionSLTPAmended e => exact hentries h fun entry hx _ _ => .amendPositionSLTP e entry hx
  | pendingReplaced e =>
    refine hentries h fun entry hx sl hby => ?_
    rcases replaceFor_cases e sl entry with ⟨_, hi⟩ | ⟨v, hv, hi⟩
    · rw [hi]
      exact .alert _ _
    · rw [hi]
      exact .amendPending e entry sl v hx hby hv
  | pendingCancelled o => exact hentries h fun _ _ _ _ => .cancelPending o _
  | pendingFilled o p => exact hentries h fun _ _ _ _ => .linkPendingFill o p _
  | rejected r => cases h

end Copier
