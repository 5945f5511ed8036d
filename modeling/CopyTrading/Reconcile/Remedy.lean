import CopyTrading.Mt5.NetBooking
import CopyTrading.Reconcile.OrphanVolume

/-!
# Reconcile.Remedy — closing the excess of a net position

The close of an excess names no copy, so the terminal closes by ticket and the deal comes back as one of its own.
It is booked on the copies that share the deal's position; where there are any, the remedy takes from the copies
what it has taken from the excess.
-/

namespace Copier.Reconcile

open List Option

variable {volume position : ℕ} {ms : Mappings}

open Mt5

/-! ### What a run of the reconciler is given -/

/-- A mapping as `mapping_rows` returns it. -/
def rowOf (created : ClientOrderId → ℚ) (m : Mapping) : MappingRow where
  masterPositionId := m.masterPositionId
  masterOrderId := m.masterOrderId
  slaveAccountId := m.slaveAccountId
  slavePositionId := m.slavePositionId
  slaveOrderId := m.slaveOrderId
  slaveVolume := m.held.map Held.slaveVolume
  clientOrderId := some m.clientOrderId
  status := m.status
  createdAt := created m.clientOrderId

/-- A position of a netting terminal as it is reported. -/
def snapshotOf (label : NetPosition → String) (p : NetPosition) : PositionSnapshot :=
  ⟨p.ticket, p.side, p.volume, label p⟩

/-- The books show the account's mappings, their sides, and the terminal's positions. -/
structure Views (b : Books) (account : ℕ) (s : Server) (t : NetBook) : Prop where
  mappings : ∃ created, (b.mappings.filter fun m => m.slaveAccountId = account).Perm
    ((s.service.mappings.rows.filter fun m => m.slaveAccountId = account).map (rowOf created))
  sides : ∀ m ∈ s.service.mappings.rows, m.slaveAccountId = account → m.status = .active →
    b.mappingSides m.clientOrderId = (openPayload s.rows m.clientOrderId).map Prod.snd
  book : ∃ label, b.book account = t.positions.rows.map (snapshotOf label)
  tickets : (t.positions.rows.map NetPosition.ticket).Nodup

variable {digest : String → String} {b b' : Books} {account ticket : ℕ} {s s' : Server} {t t' : NetBook}
  {p : NetPosition} {item : DriftItem} {i : ClosePosition} {d : ReportDeal}

/-- A mapping is an active copy inside the position. -/
def isOn (account ticket : ℕ) (m : Mapping) : Bool := (rowOf (fun _ => 0) m).isOn account ticket

theorem isOn_eq (account ticket : ℕ) (m : Mapping) : isOn account ticket m =
    (m.status = .active && m.slaveAccountId = account && truthy m.slavePositionId = some ticket) := rfl

/-- The volume of a mapping, on the side of its open command. -/
def signedCopy (rows : List CommandRow) (m : Mapping) : ℤ :=
  (((openPayload rows m.clientOrderId).map Prod.snd).map fun side => signed side m.volume).getD 0

/-- What the copies add up to, read off the mappings. -/
theorem Views.expected (h : Views b account s t) (ticket : ℕ) : b.expected account ticket =
    ((s.service.mappings.rows.filter (isOn account ticket)).map (signedCopy s.rows)).sum := by
  obtain ⟨created, hperm⟩ := h.mappings
  have hcopies : (b.copiesOn account ticket).Perm
      ((s.service.mappings.rows.filter (isOn account ticket)).map (rowOf created)) := by
    have hleft : b.copiesOn account ticket =
        (b.mappings.filter fun m => m.slaveAccountId = account).filter (MappingRow.isOn account ticket) := by
      unfold Books.copiesOn
      rw [List.filter_filter]
      refine List.filter_congr fun m _ => ?_
      by_cases hm : m.slaveAccountId = account <;> simp [MappingRow.isOn, hm]
    have hright : (s.service.mappings.rows.filter (isOn account ticket)).map (rowOf created) =
        ((s.service.mappings.rows.filter fun m => m.slaveAccountId = account).map (rowOf created)).filter
          (MappingRow.isOn account ticket) := by
      rw [List.filter_map, List.filter_filter]
      congr 1
      refine List.filter_congr fun m _ => ?_
      by_cases hm : m.slaveAccountId = account <;> simp [MappingRow.isOn, isOn_eq, rowOf, hm]
    rw [hleft, hright]
    exact hperm.filter _
  unfold Books.expected
  rw [(hcopies.map _).sum_eq, List.map_map]
  congr 1
  refine List.map_congr_left fun m hm => ?_
  obtain ⟨hrow, hon⟩ := mem_filter.1 hm
  simp only [isOn_eq, Bool.and_eq_true, decide_eq_true_eq] at hon
  have hside : b.side (rowOf created m) = (openPayload s.rows m.clientOrderId).map Prod.snd :=
    h.sides m hrow hon.1.2 hon.1.1
  show ((b.side (rowOf created m)).map fun side => signed side (rowOf created m).volume).getD 0 = _
  rw [hside]
  rfl

theorem byId_of_nodup {positions : List PositionSnapshot} (hnd : (positions.map PositionSnapshot.positionId).Nodup)
    {x : PositionSnapshot} (hx : x ∈ positions) : byId positions x.positionId = some x := by
  obtain ⟨y, hy⟩ := byId_of_mem hx
  have hid : y.positionId = x.positionId := by simpa using find?_some hy
  have hmem : y ∈ positions := mem_reverse.1 (mem_of_find?_eq_some hy)
  rw [hy, inj_on_of_nodup_map hnd hmem hx hid]

theorem Views.ids (h : Views b account s t) : ((b.book account).map PositionSnapshot.positionId).Nodup := by
  obtain ⟨label, hbook⟩ := h.book
  rw [hbook, List.map_map]
  exact h.tickets

/-- What the terminal holds under a ticket. -/
theorem Views.actual (h : Views b account s t) (hp : p ∈ t.positions.rows) :
    b.actual account p.ticket = signed p.side p.volume := by
  obtain ⟨label, hbook⟩ := h.book
  have hmem : snapshotOf label p ∈ b.book account := hbook ▸ mem_map_of_mem hp
  have hid : byId (b.book account) p.ticket = some (snapshotOf label p) := byId_of_nodup h.ids hmem
  unfold Books.actual
  rw [hid]
  rfl

theorem Views.actual_none (h : Views b account s t) (hno : ∀ p ∈ t.positions.rows, p.ticket ≠ ticket) :
    b.actual account ticket = 0 := by
  obtain ⟨label, hbook⟩ := h.book
  have hnone : byId (b.book account) ticket = none := by
    refine find?_eq_none.2 fun x hx hid => ?_
    rw [hbook] at hx
    obtain ⟨p, hp, rfl⟩ := mem_map.1 (mem_reverse.1 hx)
    exact hno p hp (of_decide_eq_true hid)
  unfold Books.actual
  rw [hnone]
  rfl

/-! ### The close of the excess -/

/-- The positions after a close of one of them. -/
theorem mem_closed {v order : ℕ} {levels : Levels} {q : NetPosition}
    (h : q ∈ (t.fill p.symbol (Side.opposite p.side) v order levels).positions.rows) :
    t.filled p.symbol (Side.opposite p.side) v order levels = some q ∨ q.symbol ≠ p.symbol ∧
      q ∈ t.positions.rows := by
  have hfind := Table.mem_iff_find.1 h
  rw [key_netPosition, NetBook.find_fill] at hfind
  split_ifs at hfind with hs
  · exact .inl hfind
  · exact .inr ⟨hs, (Table.find_eq_some hfind).1⟩

/-- What is left under the ticket. -/
theorem Views.actual_closed {v order : ℕ} (h : Views b account s t)
    (h' : Views b' account s' (t.fill p.symbol (Side.opposite p.side) v order .unset))
    (hp : t.byTicket ticket = some p) (hv : v ≤ p.volume) :
    b'.actual account ticket = signed p.side (p.volume - v) := by
  obtain ⟨hticket, hfind⟩ := NetBook.find_of_byTicket hp
  have hside : p.side ≠ Side.opposite p.side := by
    cases p.side <;> exact nofun
  have hmeet : t.filled p.symbol (Side.opposite p.side) v order .unset =
      p.meet (Side.opposite p.side) v order .unset := by
    unfold NetBook.filled
    rw [hfind]
  rcases Nat.lt_or_eq_of_le hv with hlt | rfl
  · -- part of the position is left, under its ticket
    have hleft : t.filled p.symbol (Side.opposite p.side) v order .unset =
        some { p with volume := p.volume - v, positive := Nat.sub_pos_of_lt hlt } := by
      rw [hmeet, NetPosition.meet, if_neg hside, dif_pos hlt]
    have hmem : ({ p with volume := p.volume - v, positive := Nat.sub_pos_of_lt hlt } : NetPosition) ∈
        (t.fill p.symbol (Side.opposite p.side) v order .unset).positions.rows := by
      rw [Table.mem_iff_find, key_netPosition, NetBook.find_fill, if_pos rfl]
      exact hleft
    rw [← hticket]
    exact h'.actual hmem
  · -- the position is gone, and no other has its ticket
    have hgone : t.filled p.symbol (Side.opposite p.side) p.volume order .unset = none := by
      rw [hmeet, NetPosition.meet, if_neg hside, dif_neg (lt_irrefl _), dif_neg (lt_irrefl _)]
    rw [Nat.sub_self]
    refine (h'.actual_none fun q hq hqt => ?_).trans (by cases p.side <;> rfl)
    rcases mem_closed hq with hq | ⟨hne, hq⟩
    · rw [hgone] at hq
      cases hq
    · have hpq : q = p := inj_on_of_nodup_map h.tickets hq (Table.find_eq_some hfind).1 (hqt.trans hticket.symm)
      exact hne (congrArg NetPosition.symbol hpq)

/-- An excess is on the side of the copies. -/
theorem excess_side {side : Side} {expected : ℤ} (hne : signed side volume ≠ expected)
    (h : ¬ 0 < shortOf expected (signed side volume)) : expected = signed side expected.natAbs := by
  unfold shortOf at h
  cases side <;> simp only [signed] at hne h ⊢ <;> split_ifs at h <;> omega

theorem reduceFifo_of_unshared
    (h : ∀ m ∈ ms.rows, Server.shared account position m = 0) :
      Server.reduceFifo account position volume ms = ms := by
  obtain ⟨rows, hnd⟩ := ms
  have hsame : Server.consumeShared account position volume rows.reverse = rows.reverse := by
    unfold Server.consumeShared
    rw [Fifo.consume_of_empty fun m hm => h m (mem_reverse.1 hm)]
  simp only [Server.reduceFifo, hsame, reverse_reverse]

/-- A copy that shares the position is taken from. -/
theorem exists_taken {m : Mapping} (hm : m ∈ ms.rows)
    (hshared : 0 < Server.shared account position m) (hv : 0 < volume) :
    ∃ x, x ∈ Server.takenFrom account position volume ms := by
  refine exists_mem_of_ne_nil _ fun hnil => ?_
  have hsum := Fifo.sum_taken (Server.shared account position) (fun m k => some (m.reduce k))
    ms.rows.reverse volume
  have hle : Server.shared account position m ≤ (ms.rows.reverse.map (Server.shared account position)).sum :=
    le_sum_of_mem (mem_map_of_mem (mem_reverse.2 hm))
  unfold Server.takenFrom at hnil
  rw [hnil] at hsum
  simp only [map_nil, sum_nil] at hsum
  omega

/-- **When the remedy of an excess converges**: no item of the net position is left and no copy has changed,
exactly if no active copy is booked on the position that the closing deal names. -/
theorem excess_remedy_converges {cfg : ServerConfig} {gates : Org} {now : ℚ} {specs : String → Option SymbolSpec}
    {current : List DriftItem} {rows : List MappingRow} (hlevel : Server.Level s account t)
    (hg : gates.copies = true) (ht : (cfg.targets account).isSome = true) (hnet : cfg.netting account = true)
    (hviews : Views b account s t) (hitem : netItem digest b account ticket = some item)
    (hkind : item.kind = .orphanSlavePosition) (hcurrent : current.find? (fun x => x.id = item.id) = some item)
    (hclose : closeOrphan current b rows item.id = .ok i)
    (hx : s.carryOut cfg gates now account specs (.closePosition i) t = (s', t')) (hd : t'.deals = t.deals ++ [d])
    (hfull : d.volume = i.volume) (hviews' : Views b' account s' t') :
    ((∀ item' ∈ check6 digest b', ¬ (item'.accountId = some account ∧ item'.positionId = some ticket)) ∧
        ∀ c, (s'.service.mappings.find c).map Mapping.volume = (s.service.mappings.find c).map Mapping.volume) ↔
      ∀ p, t.byTicket ticket = some p → ∀ m ∈ s.service.mappings.rows,
        Server.shared account p.identifier m = 0 := by
  obtain ⟨hnetOf, hne, hshort⟩ := netItem_not_short hitem hkind
  obtain ⟨pos, hheld, k, hk, hkpos, hkeq⟩ := netItem_excess hitem hkind
  -- the request is the excess, by ticket
  obtain ⟨item', hfound, -, hacc, hposition, hvolume, hnone⟩ := closeOrphan_spec hclose
  cases hcurrent.symm.trans hfound
  obtain rfl : account = i.slaveAccountId := by
    rw [hnetOf] at hacc
    exact some.inj hacc
  have hticket : i.positionId = ticket := by
    rw [hnetOf] at hposition
    exact (some.inj hposition).symm
  have hvol : i.volume = k := by
    rw [hk, truthy_some hkpos, some_or] at hvolume
    exact (some.inj (volume_of_truthy hvolume)).symm
  have hplain : i.masterPositionId.bind (fun p => openPayload s.rows (.cm p i.slaveAccountId)) = none := by
    rw [hnone]
    rfl
  obtain ⟨p, hp, hpos, hle, rfl, hms, hsides⟩ := Server.carryOut_by_ticket hg ht hnet hx hd hlevel hplain
  rw [hticket] at hp
  obtain ⟨hpticket, hfind⟩ := NetBook.find_of_byTicket hp
  have hactual : b.actual i.slaveAccountId ticket = signed p.side p.volume := by
    rw [← hpticket]
    exact hviews.actual (Table.find_eq_some hfind).1
  have hleft : p.volume - d.volume = (b.expected i.slaveAccountId ticket).natAbs := by
    have habs : (b.actual i.slaveAccountId ticket).natAbs = pos.volume := by simp [Books.actual, hheld,
      natAbs_signed]
    rw [hactual, natAbs_signed] at habs
    omega
  constructor
  · rintro ⟨-, hsame⟩ p' hp' m hm
    cases hp.symm.trans hp'
    by_contra hshared
    obtain ⟨x, hx⟩ := exists_taken hm (Nat.pos_of_ne_zero hshared) hpos
    have hold : s.service.mappings.find x.1.clientOrderId = some x.1 :=
      Table.find_of_mem (Server.mem_takenFrom hx).1
    have hvolume := hsame x.1.clientOrderId
    rw [hms, Server.find_taken hx, hold] at hvolume
    exact (Server.less_of_taken hx).ne (some.inj hvolume)
  · intro hunshared
    rw [reduceFifo_of_unshared (hunshared p hp)] at hms
    refine ⟨fun item' hmem hid => ?_, fun c => by rw [hms]⟩
    have hexpected : b'.expected i.slaveAccountId ticket = b.expected i.slaveAccountId ticket := by
      rw [hviews'.expected, hviews.expected, hms]
      congr 1
      refine List.map_congr_left fun m _ => ?_
      unfold signedCopy
      rw [hsides]
    have hequal : b'.actual i.slaveAccountId ticket = b'.expected i.slaveAccountId ticket := by
      rw [hviews.actual_closed hviews' hp hle, hleft, hexpected]
      exact (excess_side (hactual ▸ hne) (hactual ▸ hshort)).symm
    obtain ⟨x, -, hx'⟩ := mem_filterMap.1 hmem
    unfold netItem at hx'
    split_ifs at hx' with hno
    cases hx'
    have h₁ : x.1 = i.slaveAccountId := some.inj hid.1
    have h₂ : x.2 = ticket := some.inj hid.2
    rw [h₁, h₂] at hno
    exact hno.2 hequal

/-- A copy of 3 on the net position 9 of account 2. -/
def excessCopy : Mapping := ⟨.cm 5 2, 2, some 5, none, none, some ⟨9, 3⟩, .active⟩

def excessServer : Server where
  rows := [⟨0, 2, 1, .openMarket "EURUSD" .buy 3 .unset "copy:m5", some (.cm 5 2), false, true, .done,
    1, 0, some 0⟩]
  service := ⟨⟨[excessCopy], by decide⟩, []⟩
  watermark := fun _ => 9
  settled := fun _ => []

/-- The terminal holds 5; its deals name the position `identifier`. -/
def excessBook (identifier : ℕ) : NetBook :=
  ⟨⟨[⟨"EURUSD", 9, identifier, .buy, 5, .unset, Nat.succ_pos 4⟩], List.nodup_singleton _⟩, [], [], 9, ⟨none, 1, 0⟩⟩

/-- The reconciler is shown a net position of `net` and the copy `m`. -/
def excessBooks (net : ℕ) (m : Mapping) : Books where
  masterPositions := [⟨5, .buy, 3, ""⟩]
  slavePositions := [(2, [⟨9, .buy, net, "copy:m5"⟩])]
  accounts := List.nodup_singleton _
  mappings := [rowOf (fun _ => 0) m]
  enabledSlaveIds := [2]
  now := 0
  stalePendingAfter := stalePendingAfterS
  dryRun := false
  nettingSlaveIds := [2]
  mappingSides := fun _ => some .buy

theorem excessServer_level (identifier : ℕ) : Server.Level excessServer 2 (excessBook identifier) where
  numbered := by
    intro k r hk
    rcases k with _ | k
    · cases hk
      rfl
    · cases hk
  watermark := le_rfl
  settled := forall_mem_nil _

theorem excessBooks_views {net : ℕ} {s : Server} {t : NetBook} (position : NetPosition)
    (hms : s.service.mappings.rows = [excessCopy])
    (hside : (openPayload s.rows (.cm 5 2)).map Prod.snd = some .buy) (hp : t.positions.rows = [position])
    (hposition : snapshotOf (fun _ => "copy:m5") position = ⟨9, .buy, net, "copy:m5"⟩) :
    Views (excessBooks net excessCopy) 2 s t where
  mappings := ⟨fun _ => 0, by rw [hms]; exact .refl _⟩
  sides := by
    intro m hm _ _
    rw [hms] at hm
    obtain rfl := mem_singleton.1 hm
    exact hside.symm
  book := ⟨fun _ => "copy:m5", by rw [hp, map_singleton, hposition]; rfl⟩
  tickets := by
    rw [hp]
    exact nodup_singleton _

/-- After a flip the deals of the position still name the old identifier, which the copy does not have. -/
theorem excess_remedy_converges_flipped : ∃ s' t', excessServer.carryOut nettingAccounts .live 0 2 anyLots
      (.closePosition ⟨2, 9, 2, none⟩) (excessBook 1) = (s', t') ∧
    ∀ c, (s'.service.mappings.find c).map Mapping.volume = (excessServer.service.mappings.find c).map
      Mapping.volume := by
  generalize hx : excessServer.carryOut nettingAccounts .live 0 2 anyLots (.closePosition ⟨2, 9, 2, none⟩)
    (excessBook 1) = x
  have hd : x.2.deals = (excessBook 1).deals ++ [⟨10, 1, 10, "EURUSD", .sell, .entryOut, 2, 1, 0⟩] := by
    rw [← hx]
    decide
  have hviews : Views (excessBooks 5 excessCopy) 2 excessServer (excessBook 1) :=
    excessBooks_views _ rfl rfl rfl rfl
  have hviews' : Views (excessBooks 3 excessCopy) 2 x.1 x.2 := by
    refine excessBooks_views ⟨"EURUSD", 9, 1, .buy, 3, .unset, by decide⟩ ?_ ?_ ?_ rfl
    all_goals
      rw [← hx]
      decide
  have hitem : netItem id (excessBooks 5 excessCopy) 2 9 = some (netOf id (excessBooks 5 excessCopy) 2 9) := by
    decide
  have hclose : closeOrphan [netOf id (excessBooks 5 excessCopy) 2 9] (excessBooks 5 excessCopy) []
      (netOf id (excessBooks 5 excessCopy) 2 9).id = .ok ⟨2, 9, 2, none⟩ := by
    decide
  have hunshared : ∀ p, (excessBook 1).byTicket 9 = some p → ∀ m ∈ excessServer.service.mappings.rows,
      Server.shared 2 p.identifier m = 0 := by
    intro p hp m hm
    cases hp
    obtain rfl := mem_singleton.1 hm
    rfl
  exact ⟨x.1, x.2, rfl, ((excess_remedy_converges (excessServer_level 1) (rfl : Org.live.copies = true)
    (rfl : (nettingAccounts.targets 2).isSome = true) (rfl : nettingAccounts.netting 2 = true) hviews hitem
    (by decide) (by decide) hclose hx hd rfl hviews').2 hunshared).2⟩

/-- The excess of 2 is closed, the copy loses 2 as well, and the excess of 2 is reported again. -/
theorem remedy_reduces_copy : ∃ s' t', excessServer.carryOut nettingAccounts .live 0 2 anyLots
      (.closePosition ⟨2, 9, 2, none⟩) (excessBook 9) = (s', t') ∧
    closeOrphan (computeDrift id (excessBooks 5 excessCopy)) (excessBooks 5 excessCopy) [] "net_volume|2|9" =
      .ok ⟨2, 9, 2, none⟩ ∧
    t'.positions.rows.map NetPosition.volume = [3] ∧ s'.service.mappings.rows = [excessCopy.reduce 2] ∧
    (netItem id (excessBooks 3 (excessCopy.reduce 2)) 2 9).map DriftItem.volume = some (some 2) :=
  ⟨_, _, rfl, by decide, by decide, by decide, by decide⟩

end Copier.Reconcile
