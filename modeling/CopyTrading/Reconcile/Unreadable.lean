import CopyTrading.Reconcile.Drift

/-!
# Reconcile.Unreadable — a resync with accounts that do not answer (`_fetch_snapshot`, `run`, `resync`)

An account that the broker has disabled answers the reconcile request with an error, and is read as an empty book.
Against that stands what follows from the books that could be read: an unreadable book is no evidence that
something is gone.
-/

namespace Copier.Reconcile

open List Option

/-! ### The resync of an org -/

/-- What a resync of an org meets. -/
structure Resync where
  masterAccountId : ℕ
  enabledSlaveIds : List ℕ
  nodup : enabledSlaveIds.Nodup
  notSlave : masterAccountId ∉ enabledSlaveIds
  /-- The account's positions, or an error message instead. -/
  answer : ℕ → Option (List PositionSnapshot)
  mappings : List MappingRow
  now : ℚ
  dryRun : Bool
  nettingSlaveIds : List ℕ
  mappingSides : ClientOrderId → Option Side
  dismissed : List String
  isMt5 : ℕ → Bool
  /-- The org has a state tracker. -/
  tracked : Bool

namespace Resync

variable (digest : String → String) (r : Resync) {a p : ℕ} {accounts : List ℕ}
  {x : ℕ × PositionSnapshot} {b : Books} {item : DriftItem} {m : MappingRow}

/-- `_fetch_snapshot`: an error is treated as empty. -/
def fetchSnapshot (a : ℕ) : List PositionSnapshot := (r.answer a).getD []

/-- What `run` gives to `compute_drift`. -/
def books : Books where
  masterPositions := r.fetchSnapshot r.masterAccountId
  slavePositions := r.enabledSlaveIds.map fun a => (a, r.fetchSnapshot a)
  accounts := by
    rw [List.map_map]
    exact (List.map_id'' (fun _ => rfl) r.enabledSlaveIds).symm ▸ r.nodup
  mappings := r.mappings
  enabledSlaveIds := r.enabledSlaveIds
  now := r.now
  stalePendingAfter := stalePendingAfterS
  dryRun := r.dryRun
  nettingSlaveIds := r.nettingSlaveIds
  mappingSides := r.mappingSides

/-- `run`: the items that are published. -/
def published : List DriftItem := applyDismissals r.dismissed (computeDrift digest r.books)

/-! ### Stored positions -/

/-- The rows of `positions` by account and position: open, closed or none. -/
abbrev Stored : Type := ℕ → ℕ → Option Bool

/-- `upsert_positions`. -/
def upsertPositions (a : ℕ) (snapshots : List PositionSnapshot) (stored : Stored) : Stored :=
  fun a' p => if a' = a ∧ p ∈ snapshots.map PositionSnapshot.positionId then some true else stored a' p

/-- `close_missing_positions`. -/
def closeMissingPositions (a : ℕ) (openIds : List ℕ) (stored : Stored) : Stored :=
  fun a' p => if a' = a ∧ stored a' p = some true ∧ p ∉ openIds then some false else stored a' p

/-- One account of the persistence in `resync`; an MT5 account's book lives elsewhere. -/
def persistAccount (stored : Stored) (a : ℕ) : Stored :=
  if r.isMt5 a then stored
  else closeMissingPositions a ((r.fetchSnapshot a).map PositionSnapshot.positionId)
    (upsertPositions a (r.fetchSnapshot a) stored)

/-- The persistence in `resync`. -/
def persist (stored : Stored) : Stored :=
  if r.tracked then (r.masterAccountId :: r.enabledSlaveIds).foldl r.persistAccount stored else stored

/-! ### What follows from the readable accounts -/

/-- The broker of the account answered. -/
def readable (a : ℕ) : Bool := (r.answer a).isSome

/-- The books, with the unreadable slaves left out. -/
def readableBooks : Books := { r.books with enabledSlaveIds := r.enabledSlaveIds.filter r.readable }

/-- Whether a copy's master position is gone can be told from a readable book of the master only. -/
def follows1 : List DriftItem :=
  r.readableBooks.slavePositions.flatMap fun x =>
    if x.1 ∈ r.readableBooks.enabledSlaveIds then
      x.2.filterMap fun pos =>
        if r.readable r.masterAccountId ∨ r.books.copiesOn x.1 pos.positionId = [] then
          orphanItem digest r.books x.1 pos
        else none
    else []

/-- That a copy is missing takes both books. -/
def follows2 : List DriftItem :=
  if r.readable r.masterAccountId then check2 digest r.readableBooks else []

def follows3 : List DriftItem :=
  if r.readable r.masterAccountId then check3 digest r.books else []

/-- What the readable accounts, the mappings and the clock tell. -/
def follows : List DriftItem :=
  sortedItems (r.follows1 digest ++ r.follows2 digest ++ r.follows3 digest ++ check4 digest r.readableBooks ++
    check5 digest r.books ++ check6 digest r.readableBooks)

/-- The account whose position an item names. -/
def owner (item : DriftItem) : Option ℕ :=
  match item.kind with
  | .unmappedMasterPosition => some r.masterAccountId
  | .stalePendingCopy => some r.masterAccountId
  | _ => item.accountId

/-- The item names a position of an unreadable account. -/
def NamesUnreadable (item : DriftItem) : Prop :=
  item.positionId.isSome = true ∧ ∃ a, r.owner item = some a ∧ r.readable a = false

/-- **An unreadable account contributes nothing.** -/
structure Unaffected (stored : Stored) : Prop where
  items : r.published digest = applyDismissals r.dismissed (r.follows digest)
  names : ∀ item ∈ r.published digest, ¬ r.NamesUnreadable item
  stored : ∀ a p, r.readable a = false → stored a p = some true → r.persist stored a p = some true

/-! ### When it does -/

/-- Nothing depends on the missing books, or it is dismissed. -/
structure Harmless (stored : Stored) : Prop where
  /-- Without the master's book: no readable slave shows a copy. -/
  shown : r.readable r.masterAccountId = false → ∀ a ∈ r.enabledSlaveIds, ∀ pos ∈ r.fetchSnapshot a,
    startsWith "copy:" pos.label = true → r.books.copiesOn a pos.positionId ≠ [] →
    stableId digest ["orphan_slave_position", toString a, toString pos.positionId] ∈ r.dismissed
  /-- An unreadable slave has no copy of an open position. -/
  copies : ∀ m ∈ r.mappings, ∀ p, truthy m.slavePositionId = some p → m.status = .active → m.slaveAccountId ≠ 0 →
    m.slaveAccountId ∈ r.enabledSlaveIds → r.readable m.slaveAccountId = false →
    r.books.compared m.slaveAccountId p = false → r.books.masterOpen m.masterPositionId = true →
    stableId digest ["missing_slave_copy", toString m.slaveAccountId, toString p] ∈ r.dismissed
  /-- It has no pending copy whose master order was filled. -/
  orders : ∀ m ∈ r.mappings, ∀ o, truthy m.slaveOrderId = some o → m.status = .active → m.slaveAccountId ≠ 0 →
    (truthy m.masterPositionId).isSome = true → m.slaveAccountId ∈ r.enabledSlaveIds →
    r.readable m.slaveAccountId = false →
    stableId digest ["unfilled_slave_order", toString m.slaveAccountId, toString o] ∈ r.dismissed
  /-- The copies of its net positions cancel. -/
  nets : ∀ x ∈ r.books.comparedKeys, x.1 ∈ r.enabledSlaveIds → r.readable x.1 = false →
    r.books.expected x.1 x.2 ≠ 0 → stableId digest ["net_volume", toString x.1, toString x.2] ∈ r.dismissed
  /-- Without the master's book: no copy of a position has been pending for too long. -/
  stale : r.readable r.masterAccountId = false → r.dryRun = false → ∀ m ∈ r.mappings, r.books.stale m →
    m.masterPositionId.isSome = true →
    stableId digest ["stale_pending_copy", toString m.slaveAccountId, coidText m.clientOrderId] ∈ r.dismissed
  /-- Nothing is stored as open of an unreadable cTrader account. -/
  stored : r.tracked = true → ∀ a ∈ r.masterAccountId :: r.enabledSlaveIds, r.readable a = false →
    r.isMt5 a = false →
    ∀ p, stored a p ≠ some true

variable {digest r} {stored : Stored}

/-- The filter of `_apply_dismissals`. -/
def kept (r : Resync) (i : DriftItem) : Bool := i.id ∉ r.dismissed

theorem fetchSnapshot_unreadable (h : r.readable a = false) : r.fetchSnapshot a = [] := by
  unfold readable at h
  unfold fetchSnapshot
  rw [isSome_eq_false_iff, isNone_iff_eq_none] at h
  rw [h]
  rfl

theorem book_eq (h : a ∈ r.enabledSlaveIds) : r.books.book a = r.fetchSnapshot a := by
  have hmem : (a, r.fetchSnapshot a) ∈ r.books.slavePositions := mem_map.2 ⟨a, h, rfl⟩
  exact Books.book_of_mem hmem

/-! ### The persistence -/

theorem persistAccount_other {a' : ℕ} (h : a' ≠ a) : r.persistAccount stored a a' p = stored a' p := by
  unfold persistAccount closeMissingPositions upsertPositions
  split_ifs
  · rfl
  · simp [h]

theorem persistAccount_unreadable (h : r.readable a = false) (hs : stored a p = some true) :
    r.persistAccount stored a a p = if r.isMt5 a then some true else some false := by
  unfold persistAccount closeMissingPositions upsertPositions
  rw [fetchSnapshot_unreadable h]
  split_ifs
  · exact hs
  · simp [hs]

theorem foldl_persistAccount_other (h : a ∉ accounts) :
    accounts.foldl r.persistAccount stored a p = stored a p := by
  induction accounts generalizing stored with
  | nil => rfl
  | cons a' accounts ih =>
    obtain ⟨hne, hrest⟩ := not_or.1 (mt mem_cons.2 h)
    rw [foldl_cons, ih hrest, persistAccount_other hne]

/-- An open row of an unreadable account stays open only if nobody looks at it. -/
theorem foldl_persistAccount_unreadable (hnd : accounts.Nodup) (ha : a ∈ accounts)
    (h : r.readable a = false) (hs : stored a p = some true) :
    accounts.foldl r.persistAccount stored a p = if r.isMt5 a then some true else some false := by
  induction accounts generalizing stored with
  | nil => cases ha
  | cons a' accounts ih =>
    obtain ⟨hnot, hnd⟩ := nodup_cons.1 hnd
    rw [foldl_cons]
    by_cases he : a = a'
    · subst he
      rw [foldl_persistAccount_other hnot, persistAccount_unreadable h hs]
    · have hrest : a ∈ accounts := (mem_cons.1 ha).resolve_left he
      exact ih hnd hrest ((persistAccount_other he).trans hs)

theorem stored_iff : (∀ a p, r.readable a = false → stored a p = some true → r.persist stored a p = some true) ↔
    (r.tracked = true → ∀ a ∈ r.masterAccountId :: r.enabledSlaveIds, r.readable a = false → r.isMt5 a = false →
      ∀ p, stored a p ≠ some true) := by
  have hnd : (r.masterAccountId :: r.enabledSlaveIds).Nodup := nodup_cons.2 ⟨r.notSlave, r.nodup⟩
  constructor
  · intro h htracked a ha hunread hmt5 p hs
    have hkept := h a p hunread hs
    unfold persist at hkept
    rw [if_pos htracked, foldl_persistAccount_unreadable hnd ha hunread hs, hmt5] at hkept
    cases hkept
  · intro h a p hunread hs
    unfold persist
    split_ifs with htracked
    · by_cases ha : a ∈ r.masterAccountId :: r.enabledSlaveIds
      · rw [foldl_persistAccount_unreadable hnd ha hunread hs]
        cases hmt5 : r.isMt5 a with
        | true => rfl
        | false => exact absurd hs (h htracked a ha hunread hmt5 p)
      · exact (foldl_persistAccount_other ha).trans hs
    · exact hs

/-! ### The items -/

/-- The positions of the slaves, with their accounts. -/
def positions (r : Resync) : List (ℕ × PositionSnapshot) :=
  r.books.slavePositions.flatMap fun x => x.2.map fun pos => (x.1, pos)

theorem mem_positions : x ∈ r.positions ↔ x.1 ∈ r.enabledSlaveIds ∧ x.2 ∈ r.fetchSnapshot x.1 := by
  unfold positions books
  simp only [List.mem_flatMap, List.mem_map]
  constructor
  · rintro ⟨_, ⟨a, ha, rfl⟩, pos, hpos, rfl⟩
    exact ⟨ha, hpos⟩
  · rintro ⟨ha, hpos⟩
    exact ⟨_, ⟨x.1, ha, rfl⟩, x.2, hpos, rfl⟩

/-- Account by account, or position by position. -/
theorem flatMap_eq_filterMap (c : ℕ → Prop) [DecidablePred c] (f : ℕ → PositionSnapshot → Option DriftItem)
    (l : List (ℕ × List PositionSnapshot)) :
    (l.flatMap fun x => if c x.1 then x.2.filterMap (f x.1) else []) =
      (l.flatMap fun x => x.2.map fun pos => (x.1, pos)).filterMap fun y => if c y.1 then f y.1 y.2 else none := by
  induction l with
  | nil => rfl
  | cons x l ih =>
    rw [flatMap_cons, flatMap_cons, filterMap_append, ih, filterMap_map]
    congr 1
    split_ifs with hc
    · exact filterMap_congr fun pos _ => (if_pos hc).symm
    · refine (filterMap_eq_nil_iff.2 fun pos _ => ?_).symm
      exact if_neg hc

/-- Check 1, of all books and of the readable ones. -/
def item1 (digest : String → String) (r : Resync) (x : ℕ × PositionSnapshot) : Option DriftItem :=
  if x.1 ∈ r.enabledSlaveIds then orphanItem digest r.books x.1 x.2 else none

def follow1 (digest : String → String) (r : Resync) (x : ℕ × PositionSnapshot) : Option DriftItem :=
  if x.1 ∈ r.enabledSlaveIds.filter r.readable then
    if r.readable r.masterAccountId ∨ r.books.copiesOn x.1 x.2.positionId = [] then
      orphanItem digest r.books x.1 x.2
    else none
  else none

theorem check1_eq : check1 digest r.books = r.positions.filterMap (item1 digest r) :=
  flatMap_eq_filterMap (· ∈ r.enabledSlaveIds) (orphanItem digest r.books) r.books.slavePositions

theorem follows1_eq : r.follows1 digest = r.positions.filterMap (follow1 digest r) :=
  flatMap_eq_filterMap (· ∈ r.enabledSlaveIds.filter r.readable) (fun a pos =>
    if r.readable r.masterAccountId ∨ r.books.copiesOn a pos.positionId = [] then orphanItem digest r.books a pos
    else none) r.books.slavePositions

theorem orphanItem_id {pos : PositionSnapshot}
    (h : orphanItem digest b a pos = some item) : startsWith "copy:" pos.label = true ∧
      item.id = stableId digest ["orphan_slave_position", toString a, toString pos.positionId] ∧
      item.kind = .orphanSlavePosition ∧ item.accountId = some a := by
  unfold orphanItem at h
  split_ifs at h with hlabel
  split at h
  · split_ifs at h
    cases h
    exact ⟨hlabel, rfl, rfl, rfl⟩
  · cases h
    exact ⟨hlabel, rfl, rfl, rfl⟩

theorem masterOpen_readable {p : Option ℕ} (h : r.books.masterOpen p = true) :
    r.readable r.masterAccountId = true := by
  by_contra hun
  have hnil : r.books.masterPositions = [] := fetchSnapshot_unreadable (Bool.eq_false_iff.2 hun)
  unfold Books.masterOpen at h
  rw [hnil] at h
  cases p <;> exact absurd h nofun

theorem follow1_iff (x : ℕ × PositionSnapshot) (item : DriftItem) : follow1 digest r x = some item ↔
    item1 digest r x = some item ∧ (r.readable x.1 && (r.readable r.masterAccountId ||
      Decidable.decide (r.books.copiesOn x.1 x.2.positionId = []))) = true := by
  unfold follow1 item1
  simp only [ite_none_right_eq_some, mem_filter, Bool.and_eq_true, Bool.or_eq_true, decide_eq_true_eq]
  tauto

/-- Check 2, of the readable books. -/
def follow2 (digest : String → String) (r : Resync) (m : MappingRow) : Option DriftItem :=
  if r.readable r.masterAccountId then missingItem digest r.readableBooks m else none

theorem follows2_eq : r.follows2 digest = r.mappings.filterMap (follow2 digest r) := by
  unfold follows2
  split_ifs with h
  · exact filterMap_congr fun m _ => (if_pos h).symm
  · refine (filterMap_eq_nil_iff.2 fun m _ => ?_).symm
    exact if_neg h

theorem mem_readable : a ∈ r.readableBooks.enabledSlaveIds ↔ a ∈ r.enabledSlaveIds ∧ r.readable a = true :=
  mem_filter

theorem byId_unreadable (ha : a ∈ r.enabledSlaveIds) (h : r.readable a = false) :
    byId (r.books.book a) p = none := by
  rw [book_eq ha, fetchSnapshot_unreadable h]
  rfl

theorem follow2_iff (m : MappingRow) (item : DriftItem) : follow2 digest r m = some item ↔
    missingItem digest r.books m = some item ∧
      (r.readable r.masterAccountId && r.readable m.slaveAccountId) = true := by
  unfold follow2
  rw [ite_none_right_eq_some, missingItem_some, missingItem_some, Bool.and_eq_true]
  constructor
  · rintro ⟨hmaster, p, hp, ⟨hact, h0, hen, hcond⟩, hx⟩
    exact ⟨⟨p, hp, ⟨hact, h0, (mem_readable.1 hen).1, hcond⟩, hx⟩, hmaster, (mem_readable.1 hen).2⟩
  · rintro ⟨⟨p, hp, ⟨hact, h0, hen, hcond⟩, hx⟩, hmaster, hread⟩
    exact ⟨hmaster, p, hp, ⟨hact, h0, mem_readable.2 ⟨hen, hread⟩, hcond⟩, hx⟩

theorem unfilledItem_readable (m : MappingRow) (item : DriftItem) :
    unfilledItem digest r.readableBooks m = some item ↔
    unfilledItem digest r.books m = some item ∧ r.readable m.slaveAccountId = true := by
  rw [unfilledItem_some, unfilledItem_some]
  constructor
  · rintro ⟨o, ho, ⟨hact, h0, hlinked, hen, hmat⟩, hx⟩
    exact ⟨⟨o, ho, ⟨hact, h0, hlinked, (mem_readable.1 hen).1, hmat⟩, hx⟩, (mem_readable.1 hen).2⟩
  · rintro ⟨⟨o, ho, ⟨hact, h0, hlinked, hen, hmat⟩, hx⟩, hread⟩
    exact ⟨o, ho, ⟨hact, h0, hlinked, mem_readable.2 ⟨hen, hread⟩, hmat⟩, hx⟩

theorem netItem_readable (x : ℕ × ℕ) (item : DriftItem) : netItem digest r.readableBooks x.1 x.2 = some item ↔
    netItem digest r.books x.1 x.2 = some item ∧ r.readable x.1 = true := by
  rw [netItem_some, netItem_some, mem_readable]
  exact ⟨fun ⟨⟨⟨hen, hread⟩, hne⟩, hx⟩ => ⟨⟨⟨hen, hne⟩, hx⟩, hread⟩,
    fun ⟨⟨⟨hen, hne⟩, hx⟩, hread⟩ => ⟨⟨⟨hen, hread⟩, hne⟩, hx⟩⟩

theorem follows3_eq : r.follows3 digest = check3 digest r.books := by
  unfold follows3
  split_ifs with h
  · rfl
  · have hnil : r.books.masterPositions = [] := fetchSnapshot_unreadable (Bool.eq_false_iff.2 h)
    unfold check3
    rw [hnil]
    rfl

/-- What is published is what follows if each check gives, of what is not dismissed, only what the readable
accounts tell. -/
theorem items_iff : r.published digest = applyDismissals r.dismissed (r.follows digest) ↔
    (∀ x ∈ r.positions, ∀ item, item1 digest r x = some item → r.kept item = true →
      (r.readable x.1 && (r.readable r.masterAccountId || Decidable.decide
        (r.books.copiesOn x.1 x.2.positionId = []))) = true) ∧
    (∀ m ∈ r.mappings, ∀ item, missingItem digest r.books m = some item → r.kept item = true →
      (r.readable r.masterAccountId && r.readable m.slaveAccountId) = true) ∧
    (∀ m ∈ r.mappings, ∀ item, unfilledItem digest r.books m = some item → r.kept item = true →
      r.readable m.slaveAccountId = true) ∧
    ∀ x ∈ r.books.comparedKeys, ∀ item, netItem digest r.books x.1 x.2 = some item → r.kept item = true →
      r.readable x.1 = true := by
  have hpub : r.published digest = sortedItems ((checks digest r.books).filter r.kept) := filter_sortedItems _ _
  have hspec : applyDismissals r.dismissed (r.follows digest) = sortedItems ((r.follows1 digest ++
      r.follows2 digest ++ r.follows3 digest ++ check4 digest r.readableBooks ++ check5 digest r.books ++
      check6 digest r.readableBooks).filter r.kept) := filter_sortedItems _ _
  have hmissing : check2 digest r.books = r.mappings.filterMap (missingItem digest r.books) := rfl
  have hunfilled : ∀ b : Books, b.mappings = r.mappings → check4 digest b = r.mappings.filterMap
    (unfilledItem digest b) :=
    fun b hb => hb ▸ rfl
  have hnet : check6 digest r.readableBooks =
      r.books.comparedKeys.filterMap fun x => netItem digest r.readableBooks x.1 x.2 := rfl
  rw [← Filtered.filterMap_filter_eq_iff follow1_iff, ← Filtered.filterMap_filter_eq_iff follow2_iff,
    ← Filtered.filterMap_filter_eq_iff unfilledItem_readable, ← Filtered.filterMap_filter_eq_iff netItem_readable,
    hpub, hspec, checks, check1_eq, hmissing, hunfilled _ rfl, hunfilled _ rfl, check6, hnet,
      follows1_eq, follows2_eq,
    follows3_eq]
  simp only [filter_append]
  constructor
  · intro h
    -- the shorter lists are as long, so they are the same
    have hlen := congrArg length h
    simp only [sortedItems, length_insertionSort, length_append] at hlen
    have hsub1 := Filtered.filterMap_filter_sublist (p := r.kept) (@follow1_iff digest r) r.positions
    have hsub2 := Filtered.filterMap_filter_sublist (p := r.kept) (@follow2_iff digest r) r.mappings
    have hsub4 := Filtered.filterMap_filter_sublist (p := r.kept) (@unfilledItem_readable digest r) r.mappings
    have hsub6 := Filtered.filterMap_filter_sublist (p := r.kept) (@netItem_readable digest r) r.books.comparedKeys
    have h1 := hsub1.length_le
    have h2 := hsub2.length_le
    have h4 := hsub4.length_le
    have h6 := hsub6.length_le
    refine ⟨hsub1.eq_of_length ?_, hsub2.eq_of_length ?_, hsub4.eq_of_length ?_, hsub6.eq_of_length ?_⟩
    all_goals omega
  · rintro ⟨h1, h2, h4, h6⟩
    rw [h1, h2, h4, h6]

/-! ### The names -/

theorem mem_published :
    item ∈ r.published digest ↔ item ∈ checks digest r.books ∧ r.kept item = true := by
  have hpub : r.published digest = sortedItems ((checks digest r.books).filter r.kept) := filter_sortedItems _ _
  rw [hpub]
  unfold sortedItems
  rw [mem_insertionSort, mem_filter]

/-- Of what follows from the readable accounts, only such a copy may be named so. -/
theorem names_of_follows (hmem : item ∈ r.follows digest) (hnames : r.NamesUnreadable item) :
    r.readable r.masterAccountId = false ∧ r.dryRun = false ∧ ∃ m ∈ r.mappings, r.books.stale m ∧
      m.masterPositionId.isSome = true ∧ item = staleOf digest r.books m := by
  obtain ⟨hpos, a, howner, hun⟩ := hnames
  unfold follows sortedItems at hmem
  rw [mem_insertionSort] at hmem
  simp only [mem_append] at hmem
  rcases hmem with ((((h | h) | h) | h) | h) | h
  · rw [follows1_eq] at h
    obtain ⟨x, -, h⟩ := mem_filterMap.1 h
    unfold follow1 at h
    split_ifs at h with hen hc
    obtain ⟨-, -, hkind, hacc⟩ := orphanItem_id h
    simp only [owner, hkind, hacc] at howner
    cases howner
    rw [(mem_filter.1 hen).2] at hun
    cases hun
  · rw [follows2_eq] at h
    obtain ⟨m, -, h⟩ := mem_filterMap.1 h
    unfold follow2 at h
    split_ifs at h
    obtain ⟨p, -, ⟨-, -, hen, -⟩, rfl⟩ := missingItem_some.1 h
    cases howner
    rw [(mem_readable.1 hen).2] at hun
    cases hun
  · unfold follows3 at h
    split_ifs at h with hread
    · obtain ⟨x, -, h⟩ := mem_filterMap.1 h
      split_ifs at h
      cases h
      cases howner
      rw [hread] at hun
      cases hun
    · cases h
  · obtain ⟨m, -, h⟩ := mem_filterMap.1 h
    obtain ⟨o, -, -, rfl⟩ := unfilledItem_some.1 h
    cases hpos
  · unfold check5 at h
    split_ifs at h with hdry
    · cases h
    · obtain ⟨m, hm, h⟩ := mem_filterMap.1 h
      split_ifs at h with hstale
      cases h
      cases howner
      exact ⟨hun, Bool.eq_false_iff.2 hdry, m, hm, hstale, hpos, rfl⟩
  · obtain ⟨x, -, h⟩ := mem_filterMap.1 h
    obtain ⟨⟨hen, -⟩, rfl⟩ := netItem_some.1 h
    have hown : r.owner (netOf digest r.readableBooks x.1 x.2) = some x.1 := by
      unfold owner netOf
      simp only
      split_ifs <;> rfl
    cases hown.symm.trans howner
    rw [(mem_readable.1 hen).2] at hun
    cases hun

theorem actual_unreadable {ticket : ℕ} (ha : a ∈ r.enabledSlaveIds) (h : r.readable a = false) :
    r.books.actual a ticket = 0 := by
  unfold Books.actual
  rw [byId_unreadable ha h]
  rfl

/-- What an unreadable account would bring is an item that is dismissed. -/
theorem Unaffected.harmless (h : r.Unaffected digest stored) : r.Harmless digest stored where
  shown hmaster a ha pos hpos hlabel hcopies := by
    by_contra hnot
    obtain ⟨m, hm⟩ : ∃ m, (r.books.copiesOn a pos.positionId).getLast? = some m :=
      ⟨_, getLast?_eq_some_getLast hcopies⟩
    -- without a book of the master no master position is open
    have hgone : r.books.masterOpen m.masterPositionId = false := by
      by_contra hopen
      rw [masterOpen_readable (Bool.eq_true_of_not_eq_false hopen)] at hmaster
      cases hmaster
    have hitem : item1 digest r (a, pos) = some (orphanOf digest a pos.positionId
        ("Mapping exists but master position " ++ idText m.masterPositionId ++ " is gone")) := by
      simp only [item1, if_pos ha, orphanItem, if_pos hlabel, hm, hgone, Bool.false_eq_true, if_false]
    have htold := (items_iff.1 h.items).1 (a, pos) (mem_positions.2 ⟨ha, hpos⟩) _ hitem (decide_eq_true hnot)
    simp [hmaster, hcopies] at htold
  copies m hm p hp hact h0 hen hun hcomp hopen := by
    by_contra hnot
    have hitem : missingItem digest r.books m = some (missingOf digest m.slaveAccountId p) :=
      missingItem_some.2 ⟨p, hp, ⟨hact, h0, hen, hcomp, hopen, byId_unreadable hen hun⟩, rfl⟩
    have htold := (items_iff.1 h.items).2.1 m hm _ hitem (decide_eq_true hnot)
    simp [hun] at htold
  orders m hm o ho hact h0 hlinked hen hun := by
    by_contra hnot
    have hmat : r.books.materialized m = false := by
      unfold Books.materialized
      rw [book_eq hen, fetchSnapshot_unreadable hun]
      rfl
    have hitem : unfilledItem digest r.books m = some (unfilledOf digest m.slaveAccountId o) :=
      unfilledItem_some.2 ⟨o, ho, ⟨hact, h0, hlinked, hen, hmat⟩, rfl⟩
    rw [(items_iff.1 h.items).2.2.1 m hm _ hitem (decide_eq_true hnot)] at hun
    cases hun
  nets x hx hen hun hne := by
    by_contra hnot
    have hitem : netItem digest r.books x.1 x.2 = some (netOf digest r.books x.1 x.2) :=
      netItem_some.2 ⟨⟨hen, by rw [actual_unreadable hen hun]; exact hne.symm⟩, rfl⟩
    rw [(items_iff.1 h.items).2.2.2 x hx _ hitem (decide_eq_true hnot)] at hun
    cases hun
  stale hmaster hdry m hm hstale hpos := by
    by_contra hnot
    have hmem : staleOf digest r.books m ∈ check5 digest r.books := by
      have hdry : r.books.dryRun = false := hdry
      unfold check5
      rw [hdry, if_neg Bool.false_ne_true]
      exact mem_filterMap.2 ⟨m, hm, if_pos hstale⟩
    have hchecks : staleOf digest r.books m ∈ checks digest r.books := by
      unfold checks
      exact mem_append_left _ (mem_append_right _ hmem)
    refine h.names _ (mem_published.2 ⟨hchecks, decide_eq_true hnot⟩) ⟨hpos, r.masterAccountId, rfl, hmaster⟩
  stored := stored_iff.1 h.stored

theorem Harmless.items (h : r.Harmless digest stored) :
    r.published digest = applyDismissals r.dismissed (r.follows digest) := by
  refine items_iff.2 ⟨fun x hx item hitem hkept => ?_, fun m hm item hitem hkept => ?_,
    fun m hm item hitem hkept => ?_, fun x hx item hitem hkept => ?_⟩
  · obtain ⟨ha, hpos⟩ := mem_positions.1 hx
    have hread : r.readable x.1 = true := by
      by_contra hun
      rw [fetchSnapshot_unreadable (Bool.eq_false_iff.2 hun)] at hpos
      cases hpos
    unfold item1 at hitem
    rw [if_pos ha] at hitem
    simp only [hread, Bool.true_and, Bool.or_eq_true, decide_eq_true_eq]
    by_contra hc
    obtain ⟨hmaster, hcopies⟩ := not_or.1 hc
    obtain ⟨hlabel, hid, -⟩ := orphanItem_id hitem
    have hdis := h.shown (Bool.eq_false_iff.2 hmaster) x.1 ha x.2 hpos hlabel hcopies
    rw [← hid] at hdis
    exact absurd hdis (of_decide_eq_true hkept)
  · obtain ⟨p, hp, ⟨hact, h0, hen, hcomp, hopen, hgone⟩, rfl⟩ := missingItem_some.1 hitem
    rw [masterOpen_readable hopen, Bool.true_and]
    by_contra hun
    exact absurd (h.copies m hm p hp hact h0 hen (Bool.eq_false_iff.2 hun) hcomp hopen) (of_decide_eq_true hkept)
  · obtain ⟨o, ho, ⟨hact, h0, hlinked, hen, hmat⟩, rfl⟩ := unfilledItem_some.1 hitem
    by_contra hun
    exact absurd (h.orders m hm o ho hact h0 hlinked hen (Bool.eq_false_iff.2 hun)) (of_decide_eq_true hkept)
  · obtain ⟨⟨hen, hne⟩, rfl⟩ := netItem_some.1 hitem
    by_contra hun
    have hun := Bool.eq_false_iff.2 hun
    have hexp : r.books.expected x.1 x.2 ≠ 0 := by
      intro h0
      refine hne ?_
      rw [h0, actual_unreadable hen hun]
    exact absurd (h.nets x hx hen hun hexp) (of_decide_eq_true hkept)

/-- **When an unreadable account contributes nothing.** -/
theorem unreadable_contributes_nothing (digest : String → String) (r : Resync) (stored : Stored) :
    r.Unaffected digest stored ↔ r.Harmless digest stored := by
  refine ⟨Unaffected.harmless, fun h => ⟨h.items, fun item hmem hnames => ?_, stored_iff.2 h.stored⟩⟩
  rw [h.items] at hmem
  obtain ⟨hfollows, hkept⟩ := mem_filter.1 hmem
  obtain ⟨hmaster, hdry, m, hm, hstale, hpos, rfl⟩ := names_of_follows hfollows hnames
  exact absurd (h.stale hmaster hdry m hm hstale hpos) (of_decide_eq_true hkept)

/-- Account 1 is the master, with position 5 open; the slave 2 holds a copy of it and answers with an error. -/
def sampleSilent : Resync where
  masterAccountId := 1
  enabledSlaveIds := [2]
  nodup := List.nodup_singleton 2
  notSlave := by decide
  answer := fun a => if a = 1 then some [⟨5, .buy, 100, ""⟩] else none
  mappings := [⟨some 5, none, 2, some 9, none, some 100, some (.cm 5 2), .active, 0⟩]
  now := 0
  dryRun := false
  nettingSlaveIds := []
  mappingSides := fun _ => none
  dismissed := []
  isMt5 := fun _ => false
  tracked := true

/-- The copy is reported as missing and its stored position is marked closed. -/
theorem silent_account_reported :
    (sampleSilent.published id).map DriftItem.id = ["missing_slave_copy|2|9"] ∧
      sampleSilent.follows id = [] ∧
      sampleSilent.persist (fun a p => if a = 2 ∧ p = 9 then some true else none) 2 9 = some false := by
  refine ⟨by decide, by decide, by decide⟩

end Resync

end Copier.Reconcile
