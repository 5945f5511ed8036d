import CopyTrading.Lib.WriteBehind
import CopyTrading.Mt5.NetLedger

/-!
# Mt5.LedgerTable — the ledger and its rows in `mt5_net_ledger` (`db/repo.py`, `_persist_net_ledger`)

The ledger is kept in memory and written behind: after each report its dirty rows are upserted and its
emptied positions deleted, and a restart rebuilds it from the table.  An upsert of a row in use refreshes
only what is left of the position and its levels, so the two agree because nothing else of a position ever
changes.
-/

namespace Copier.Mt5

open List VirtualPosition NetLedger

open WriteBehind (Behind Touched Refresh Store flush)

/-- `PRIMARY KEY (account_id, virtual_id)`, for one account. -/
instance : Keyed VirtualPosition ℕ := ⟨VirtualPosition.virtualId⟩

/-- The table `mt5_net_ledger`. -/
abbrev LedgerTable : Type := Table VirtualPosition

/-- `ON CONFLICT … DO UPDATE` of `upsert_net_ledger`. -/
def refreshed : Refresh VirtualPosition where
  apply r v := { r with volumeLeft := v.volumeLeft, levels := v.levels }
  key_apply _ _ := rfl
  apply_self _ := rfl

namespace NetLedger

/-- The position of an id. -/
def find (l : NetLedger) (i : ℕ) : Option VirtualPosition := l.positions.find? fun v => v.virtualId = i

theorem virtualId_of_find {l : NetLedger} {i : ℕ} {v : VirtualPosition} (h : l.find i = some v) :
    v.virtualId = i := by simpa using find?_some h

/-- The ledger as a store with marks. -/
def store (l : NetLedger) : Store VirtualPosition ℕ where
  find := l.find
  key_find _ _ h := virtualId_of_find h
  dirty := l.dirty
  deleted := l.deleted

/-- `_persist_net_ledger`: the upserts, then the deletes. -/
def persist (l : NetLedger) (t : LedgerTable) : NetLedger × LedgerTable :=
  let r := l.dirtyRows
  (r.1, (r.2.1.foldl (WriteBehind.upsert refreshed) t).delete r.2.2)

end NetLedger

/-! ### What each call marks -/

section Marks

variable {l : NetLedger} {i : ℕ} {es : List MasterPositionClosed}

theorem mem_dirty_markDirty {j : ℕ} : i ∈ (l.markDirty j).dirty ↔ i = j ∨ i ∈ l.dirty := by
  unfold markDirty
  split_ifs with hj
  · constructor
    · exact .inr
    · rintro (rfl | hi)
      · exact hj
      · exact hi
  · rw [mem_append, mem_singleton, or_comm]

theorem mem_dirty_foldl_markDirty {js : List ℕ} :
    i ∈ (js.foldl NetLedger.markDirty l).dirty ↔ i ∈ js ∨ i ∈ l.dirty := by
  induction js generalizing l with
  | nil => simp
  | cons j js ih => rw [foldl_cons, ih, mem_dirty_markDirty, mem_cons, or_assoc, or_left_comm]

theorem foldl_markDirty_rest (l : NetLedger) (js : List ℕ) :
    (js.foldl NetLedger.markDirty l).positions = l.positions ∧
      (js.foldl NetLedger.markDirty l).deleted = l.deleted := by
  induction js generalizing l with
  | nil => exact ⟨rfl, rfl⟩
  | cons j js ih => exact ih (l.markDirty j)

/-- A close that does not name `i` leaves its marks. -/
theorem notes_other (h : ∀ e ∈ es, e.positionId ≠ i) :
    (i ∈ (es.foldl NetLedger.noteClosed l).dirty ↔ i ∈ l.dirty) ∧
      (i ∈ (es.foldl NetLedger.noteClosed l).deleted ↔ i ∈ l.deleted) := by
  induction es generalizing l with
  | nil => exact ⟨Iff.rfl, Iff.rfl⟩
  | cons e es ih =>
    obtain ⟨hd, hx⟩ := ih (l := l.noteClosed e) fun e' he => h e' (mem_cons_of_mem e he)
    rw [foldl_cons, hd, hx]
    have hne : i ≠ e.positionId := (h e mem_cons_self).symm
    unfold noteClosed
    split_ifs
    · simp [hne]
    · exact ⟨mem_dirty_markDirty.trans (or_iff_right hne), Iff.rfl⟩

/-- The close of `i` marks it: to be deleted when nothing is left, to be upserted otherwise. -/
theorem notes_self {e : MasterPositionClosed} (he : e ∈ es)
    (hid : e.positionId = i) (hnd : (es.map MasterPositionClosed.positionId).Nodup) :
    (e.remainingVolume = 0 ∧ i ∉ (es.foldl NetLedger.noteClosed l).dirty ∧
        i ∈ (es.foldl NetLedger.noteClosed l).deleted) ∨
      (e.remainingVolume ≠ 0 ∧ i ∈ (es.foldl NetLedger.noteClosed l).dirty ∧
        (i ∈ (es.foldl NetLedger.noteClosed l).deleted ↔ i ∈ l.deleted)) := by
  induction es generalizing l with
  | nil => cases he
  | cons e' es ih =>
    rw [map_cons, nodup_cons] at hnd
    rw [foldl_cons]
    rcases mem_cons.1 he with rfl | he'
    · have hrest : ∀ e'' ∈ es, e''.positionId ≠ i := by
        intro e'' he'' heq
        exact hnd.1 (mem_map.2 ⟨e'', he'', heq.trans hid.symm⟩)
      rw [(notes_other hrest).1, (notes_other hrest).2]
      unfold noteClosed
      split_ifs with h0
      · exact .inl ⟨h0, by simp [hid], by simp [hid]⟩
      · exact .inr ⟨h0, mem_dirty_markDirty.2 (.inl hid.symm), Iff.rfl⟩
    · have hne : i ≠ e'.positionId := fun heq => hnd.1 (mem_map.2 ⟨e, he', hid.trans heq⟩)
      have hx : i ∈ (l.noteClosed e').deleted ↔ i ∈ l.deleted := by
        unfold noteClosed
        split_ifs
        · simp [hne]
        · exact Iff.rfl
      rw [← hx]
      exact ih he' hnd.2

end Marks

/-! ### One call -/

section Calls

variable {l : NetLedger} {t : LedgerTable} {d : ReportDeal}

/-- A row with the fixed columns of `v` is refreshed to `v`, whatever is left of it and its levels. -/
theorem refreshed_fix {r v : VirtualPosition} (h : refreshed.apply r v = v) {left : ℕ} {levels : Levels} :
    refreshed.apply r { v with volumeLeft := left, levels := levels } =
      { v with volumeLeft := left, levels := levels } := by
  rw [← h]
  rfl

/-- The ledger's positions as a table. -/
def NetLedger.asTable (l : NetLedger) (h : (l.positions.map VirtualPosition.virtualId).Nodup) :
    LedgerTable := ⟨l.positions, h⟩

/-- Closes mark what they take from. -/
theorem touched_consume (h : (l.positions.map VirtualPosition.virtualId).Nodup) (symbol canonical : String)
    (n i : ℕ) : Touched refreshed l.store (l.consume symbol canonical n).1.store i := by
  have hps := positions_consume l symbol canonical n
  set r := Fifo.consume (amount symbol) drain l.positions n with hr
  have hfind : (l.consume symbol canonical n).1.find i =
      (r.2.find? fun x => x.1.virtualId = i).elim (l.find i) fun x => x.1.drain x.2 := by
    unfold find
    rw [hps]
    exact Fifo.find_left virtualId_drain h i
  have hids : ((r.2.map (closedEvent canonical)).map MasterPositionClosed.positionId).Nodup := by
    rw [map_map]
    exact h.sublist (Fifo.taken_sublist virtualId l.positions n)
  cases hx : r.2.find? (fun x => x.1.virtualId = i) with
  | none =>
    rw [hx] at hfind
    have hother : ∀ e ∈ r.2.map (closedEvent canonical), e.positionId ≠ i := by
      intro e he
      obtain ⟨x, hxm, rfl⟩ := mem_map.1 he
      exact fun hid => find?_eq_none.1 hx x hxm (decide_eq_true hid)
    obtain ⟨hd, hdel⟩ := notes_other (l := { l with positions := r.1 }) hother
    exact .same hfind hd hdel
  | some x =>
    rw [hx] at hfind
    have hmem := mem_of_find?_eq_some hx
    have hid : x.1.virtualId = i := by simpa using find?_some hx
    have hold : l.find i = some x.1 := by
      rw [← hid]
      exact Table.find_of_mem (t := l.asTable h) (Fifo.mem_taken hmem).1
    have hnote := notes_self (l := { l with positions := r.1 })
      (mem_map_of_mem (f := closedEvent canonical) hmem) hid hids
    rcases drain_cases x.1 x.2 with ⟨h0, hdrain⟩ | ⟨h0, hdrain⟩
    · rcases hnote with ⟨-, hd, hdel⟩ | ⟨h0', -⟩
      · exact .closed x.1 hold (hfind.trans hdrain) hd hdel
      · exact absurd h0 h0'
    · rcases hnote with ⟨h0', -⟩ | ⟨-, hd, hdel⟩
      · exact absurd h0' h0
      · exact .changed x.1 _ hold (hfind.trans hdrain) hd hdel fun r hfix => refreshed_fix hfix

/-- A new position is marked, and nothing else changes. -/
theorem touched_openVirtual (hids : ((l.positions.map VirtualPosition.virtualId) ++ [d.ticket]).Nodup)
    (hx : d.ticket ∉ l.deleted) (side : Side) (volume : ℕ) (levels : Levels) (i : ℕ) :
    Touched refreshed l.store (l.openVirtual d side volume levels).store i := by
  set vp : VirtualPosition := ⟨d.ticket, d.symbol, side, volume, volume, levels, d.timeMs⟩ with hvp
  have hids' : ((l.positions ++ [vp]).map virtualId).Nodup := by
    rw [map_append]
    exact hids
  have hsorted : ((sorted (l.positions ++ [vp])).map virtualId).Nodup :=
    ((perm_insertionSort _ _).map _).nodup_iff.2 hids'
  have hfind : (l.openVirtual d side volume levels).find i = (l.positions ++ [vp]).find? fun v =>
    v.virtualId = i :=
    Table.find_of_perm (t := ⟨_, hsorted⟩) (u := ⟨_, hids'⟩) (perm_insertionSort _ _) i
  rw [find?_append] at hfind
  have hdirty : i ∈ (l.openVirtual d side volume levels).dirty ↔ i = d.ticket ∨ i ∈ l.dirty :=
    mem_dirty_markDirty (l := { l with positions := sorted (l.positions ++ [vp]) })
  have hdel : i ∈ (l.openVirtual d side volume levels).deleted ↔ i ∈ l.deleted ∧ i ≠ d.ticket := by
    show i ∈ l.deleted.filter (· ≠ d.ticket) ↔ _
    simp
  by_cases hi : i = d.ticket
  · subst hi
    have hnone : l.find d.ticket = none := by
      refine find?_eq_none.2 fun v hv hvi => ?_
      have hdis := disjoint_of_nodup_append hids
      exact hdis (mem_map_of_mem hv) (by simpa using hvi)
    refine .opened vp hnone hx ?_ (hdirty.2 (.inl rfl)) fun hm => (hdel.1 hm).2 rfl
    show (l.openVirtual d side volume levels).find d.ticket = some vp
    unfold find at hnone
    rw [hfind, hnone, Option.none_or]
    exact find?_cons_of_pos (by simp [hvp])
  · refine .same ?_ (hdirty.trans (or_iff_right hi)) (hdel.trans (and_iff_left hi))
    show (l.openVirtual d side volume levels).find i = l.find i
    have hnone : [vp].find? (fun v => v.virtualId = i) = none :=
      find?_cons_of_neg (by simpa [hvp] using Ne.symm hi)
    rw [hfind, hnone, Option.or_none]
    rfl

/-- Changed levels are marked. -/
theorem touched_applyProtection (h : (l.positions.map VirtualPosition.virtualId).Nodup) (symbol : String)
    (levels : Levels) (i : ℕ) : Touched refreshed l.store (l.applyProtection symbol levels).1.store i := by
  set amended : VirtualPosition → VirtualPosition :=
    fun v => if v.symbol = symbol then { v with levels := levels } else v with hamended
  set changed := (l.ofSymbol symbol).filter fun v => v.levels ≠ levels with hchanged
  obtain ⟨hps, hdel⟩ := foldl_markDirty_rest { l with positions := l.positions.map amended }
    (changed.map virtualId)
  have hdirty : i ∈ (l.applyProtection symbol levels).1.dirty ↔
      i ∈ changed.map virtualId ∨ i ∈ l.dirty :=
    mem_dirty_foldl_markDirty (l := { l with positions := l.positions.map amended })
  have hdel' : i ∈ (l.applyProtection symbol levels).1.deleted ↔ i ∈ l.deleted := by
    show i ∈ deleted (foldl _ _ _) ↔ _
    rw [hdel]
  have hfind : (l.applyProtection symbol levels).1.find i = (l.find i).map amended := by
    show find? _ (positions (foldl _ _ _)) = _
    rw [hps, find?_map]
    congr 2
    funext v
    simp only [hamended, Function.comp]
    split_ifs <;> rfl
  by_cases hc : i ∈ changed.map virtualId
  · obtain ⟨v, hv, hid⟩ := mem_map.1 hc
    obtain ⟨hv, hne⟩ := mem_filter.1 hv
    obtain ⟨hmem, hsym⟩ := mem_filter.1 hv
    have hold : l.find i = some v := by
      rw [← hid]
      exact Table.find_of_mem (t := l.asTable h) hmem
    have hnew : amended v = { v with levels := levels } := if_pos (of_decide_eq_true hsym)
    rw [hold, Option.map_some, hnew] at hfind
    exact .changed v _ hold hfind (hdirty.2 (.inl hc)) hdel' fun r hfix => refreshed_fix hfix
  · refine .same (hfind.trans ?_) (hdirty.trans (or_iff_right hc)) hdel'
    show (l.find i).map amended = l.find i
    cases hv : l.find i with
    | none => rfl
    | some v =>
      refine congrArg some ?_
      by_cases hsym : v.symbol = symbol
      · -- its levels were the same
        have hlev : v.levels = levels := by
          by_contra hne
          refine hc (mem_map.2 ⟨v, ?_, virtualId_of_find hv⟩)
          rw [hchanged, mem_filter]
          refine ⟨mem_filter.2 ⟨mem_of_find?_eq_some hv, decide_eq_true hsym⟩, ?_⟩
          exact decide_eq_true hne
        rw [hamended]
        simp only [if_pos hsym, ← hlev]
      · exact if_neg hsym

end Calls

/-! ### Any sequence of calls -/

/-- The ledger, the table behind it and the tickets used so far. -/
structure Keeper where
  ledger : NetLedger
  table : LedgerTable
  tickets : List ℕ

/-- A call of `apply_deal` or `apply_protection`, or the end of a report. -/
inductive Call where
  | deal (d : ReportDeal) (canonical : String) (levels : Levels)
  | protection (symbol : String) (levels : Levels)
  | report
  deriving DecidableEq

/-- A deal comes with a ticket of its own. -/
def Keeper.fire : Call → Keeper → Option Keeper
  | .deal d canonical levels, s =>
    if d.ticket ∈ s.tickets then none
    else some ⟨(s.ledger.applyDeal d canonical levels).1, s.table, d.ticket :: s.tickets⟩
  | .protection symbol levels, s =>
    some { s with ledger := (s.ledger.applyProtection symbol levels).1 }
  | .report, s =>
    let r := s.ledger.persist s.table
    some { s with ledger := r.1, table := r.2 }

/-- The ledger keeps its promise to the table; its ids are distinct, were tickets once and come in order. -/
structure Kept (l : NetLedger) (t : LedgerTable) (tickets : List ℕ) : Prop where
  ids : (l.positions.map VirtualPosition.virtualId).Nodup
  sorted : l.positions.Pairwise fun v w => v.key ≤ w.key
  seen : ∀ v ∈ l.positions, v.virtualId ∈ tickets
  gone : ∀ i ∈ l.deleted, i ∈ tickets
  behind : ∀ i, Behind refreshed l.store t i

section Runs

variable {l : NetLedger} {t : LedgerTable} {tickets : List ℕ} {d : ReportDeal}

theorem pairwise_sorted (ps : List VirtualPosition) :
    (NetLedger.sorted ps).Pairwise fun v w => v.key ≤ w.key :=
  pairwise_insertionSort _ _

/-- Ids that a close marks as deleted were positions of the ledger. -/
theorem deleted_notes {es : List MasterPositionClosed} {i : ℕ}
    (h : i ∈ (es.foldl NetLedger.noteClosed l).deleted) :
    i ∈ l.deleted ∨ ∃ e ∈ es, e.positionId = i := by
  by_cases hc : ∃ e ∈ es, e.positionId = i
  · exact .inr hc
  · exact .inl ((notes_other fun e he heq => hc ⟨e, he, heq⟩).2.1 h)

section

variable (h : Kept l t tickets)
include h

theorem Kept.consume (symbol canonical : String) (n : ℕ) :
    Kept (l.consume symbol canonical n).1 t tickets := by
  have hps := positions_consume l symbol canonical n
  constructor
  case ids =>
    rw [hps]
    exact h.ids.sublist (Fifo.sublist_map virtualId_drain _ _)
  case sorted =>
    rw [hps]
    exact pairwise_map.1 ((pairwise_map.2 h.sorted).sublist (Fifo.sublist_map key_drain _ _))
  case seen =>
    rw [hps]
    intro w hw
    obtain ⟨v, hv, hid, -⟩ := mem_consumed hw
    exact hid ▸ h.seen v hv
  case gone =>
    intro i hi
    rcases deleted_notes hi with hi | ⟨e, he, rfl⟩
    · exact h.gone i hi
    · obtain ⟨x, hx, rfl⟩ := mem_map.1 he
      exact h.seen x.1 (Fifo.mem_taken hx).1
  case behind => exact fun i => (touched_consume h.ids symbol canonical n i).behind (h.behind i)

theorem Kept.openVirtual (hd : d.ticket ∉ tickets) (side : Side) (volume : ℕ)
    (levels : Levels) : Kept (l.openVirtual d side volume levels) t (d.ticket :: tickets) := by
  have hids : (l.positions.map virtualId ++ [d.ticket]).Nodup := by
    refine Nodup.append h.ids (nodup_singleton _) ?_
    rw [disjoint_singleton]
    intro hm
    obtain ⟨v, hv, hid⟩ := mem_map.1 hm
    exact hd (hid ▸ h.seen v hv)
  have hperm := perm_insertionSort (fun v w : VirtualPosition => v.key ≤ w.key)
    (l.positions ++ [⟨d.ticket, d.symbol, side, volume, volume, levels, d.timeMs⟩])
  constructor
  case ids =>
    refine ((hperm.map _).nodup_iff).2 ?_
    rw [map_append]
    exact hids
  case sorted => exact pairwise_sorted _
  case seen =>
    intro v hv
    rcases mem_append.1 (hperm.mem_iff.1 hv) with hv | hv
    · exact mem_cons_of_mem _ (h.seen v hv)
    · rw [mem_singleton.1 hv]
      exact mem_cons_self
  case gone =>
    intro i hi
    exact mem_cons_of_mem _ (h.gone i (mem_of_mem_filter hi))
  case behind =>
    intro i
    exact (touched_openVirtual hids (fun hm => hd (h.gone _ hm)) side volume levels i).behind (h.behind i)

theorem Kept.mono (n : ℕ) : Kept l t (n :: tickets) :=
  ⟨h.ids, h.sorted, fun v hv => mem_cons_of_mem n (h.seen v hv),
    fun i hi => mem_cons_of_mem n (h.gone i hi), h.behind⟩

/-- **A deal with a new ticket.** -/
theorem Kept.applyDeal (hd : d.ticket ∉ tickets) (canonical : String)
    (levels : Levels) : Kept (l.applyDeal d canonical levels).1 t (d.ticket :: tickets) := by
  unfold NetLedger.applyDeal
  cases d.dealType.side with
  | none => exact h.mono _
  | some side =>
    simp only
    by_cases h0 : d.volume = 0
    · rw [if_pos h0]
      exact h.mono _
    · rw [if_neg h0]
      cases d.entry with
      | entryIn => exact h.openVirtual hd side d.volume levels
      | entryOut | entryOutBy => exact (h.consume d.symbol canonical d.volume).mono _
      | entryNone => exact h.mono _
      | entryInOut =>
        have hclosed := h.consume d.symbol canonical ((l.ofSymbol d.symbol).map volumeLeft).sum
        simp only
        split_ifs
        · exact hclosed.openVirtual hd side _ levels
        · exact hclosed.mono _

/-- **New levels of a symbol.** -/
theorem Kept.applyProtection (symbol : String) (levels : Levels) :
    Kept (l.applyProtection symbol levels).1 t tickets := by
  set amended : VirtualPosition → VirtualPosition :=
    fun v => if v.symbol = symbol then { v with levels := levels } else v with hamended
  obtain ⟨hps, hdel⟩ := foldl_markDirty_rest { l with positions := l.positions.map amended }
    (((l.ofSymbol symbol).filter fun v => v.levels ≠ levels).map virtualId)
  have hid : ∀ v, (amended v).virtualId = v.virtualId := by
    intro v
    simp only [hamended]
    split_ifs <;> rfl
  have hkey : ∀ v, (amended v).key = v.key := by
    intro v
    simp only [hamended]
    split_ifs <;> rfl
  have hps' : (l.applyProtection symbol levels).1.positions = l.positions.map amended := hps
  constructor
  case ids =>
    rw [hps', map_map]
    simpa only [Function.comp_def, hid] using h.ids
  case sorted =>
    rw [hps', pairwise_map]
    simpa only [hkey] using h.sorted
  case seen =>
    rw [hps']
    intro w hw
    obtain ⟨v, hv, rfl⟩ := mem_map.1 hw
    rw [hid]
    exact h.seen v hv
  case gone =>
    have hdel' : (l.applyProtection symbol levels).1.deleted = l.deleted := hdel
    rw [hdel']
    exact h.gone
  case behind => exact fun i => (touched_applyProtection h.ids symbol levels i).behind (h.behind i)

end

/-- A ledger whose positions the table has, in any order, is what the table is loaded into. -/
theorem ofRows_eq (hids : (l.positions.map VirtualPosition.virtualId).Nodup)
    (hsorted : l.positions.Pairwise fun v w => v.key ≤ w.key) (h : ∀ i, t.find i = l.find i) :
    NetLedger.ofRows t.rows = { l with dirty := [], deleted := [] } := by
  have hperm : t.rows.Perm l.positions := Table.perm_of_find (u := l.asTable hids) h
  have heq : sorted t.rows = l.positions := by
    refine Perm.eq_of_pairwise ?_ (pairwise_sorted _) hsorted
      ((perm_insertionSort _ _).trans hperm)
    -- equal keys mean equal ids
    intro v w hv hw hvw hwv
    have hv' : v ∈ l.positions := hperm.mem_iff.1 ((perm_insertionSort _ _).mem_iff.1 hv)
    have hkey : v.key = w.key := le_antisymm hvw hwv
    refine inj_on_of_nodup_map hids hv' hw ?_
    exact congrArg (fun k => (ofLex k).2) hkey
  rw [ofRows, heq]

/-- **The end of a report**: what the table would be loaded into is the ledger. -/
theorem Kept.persist (h : Kept l t tickets) :
    NetLedger.ofRows (l.persist t).2.rows = (l.persist t).1 ∧ Kept (l.persist t).1 (l.persist t).2 tickets := by
  have hfind : ∀ i, (l.persist t).2.find i = l.find i := fun i => WriteBehind.find_flush (h.behind i)
  refine ⟨ofRows_eq h.ids h.sorted hfind, h.ids, h.sorted, h.seen, nofun, fun i => ?_⟩
  exact WriteBehind.behind_of_eq rfl rfl (hfind i)

/-- A ledger that has just been loaded. -/
structure Keeper.Loaded (s : Keeper) : Prop where
  ledger : s.ledger = NetLedger.ofRows s.table.rows
  seen : ∀ v ∈ s.table.rows, v.virtualId ∈ s.tickets

theorem kept_ofRows (h : ∀ v ∈ t.rows, v.virtualId ∈ tickets) : Kept (NetLedger.ofRows t.rows) t tickets := by
  have hperm : (sorted t.rows).Perm t.rows := perm_insertionSort _ _
  have hids : ((sorted t.rows).map virtualId).Nodup :=
    (hperm.map _).nodup_iff.2 t.nodup
  refine ⟨hids, pairwise_sorted _, fun v hv => h v (hperm.mem_iff.1 hv), nofun, fun i => ?_⟩
  exact WriteBehind.behind_of_eq rfl rfl
    (Table.find_of_perm (u := asTable (ofRows t.rows) hids) hperm.symm i)

variable {s s' : Keeper}

/-- One call. -/
theorem Kept.step {a : Call} (h : Kept s.ledger s.table s.tickets) (hf : s.fire a = some s') :
    Kept s'.ledger s'.table s'.tickets := by
  cases a with
  | deal d canonical levels =>
    simp only [Keeper.fire] at hf
    split_ifs at hf with hd
    cases hf
    exact h.applyDeal hd canonical levels
  | protection symbol levels =>
    cases hf
    exact h.applyProtection symbol levels
  | report =>
    cases hf
    exact h.persist.2

/-- **The ledger's table is exact.**  From a ledger loaded from its table, after any calls with tickets of
their own and at the end of any report, loading the table gives the ledger in memory: the same virtual
positions with the same fields in the same order. -/
theorem ledger_table_exact (h₀ : s.Loaded) {r r' : Keeper}
    (hr : Machine.Run Keeper.fire (fun _ _ => True) s r) (hf : r.fire .report = some r') :
    NetLedger.ofRows r'.table.rows = r'.ledger := by
  have hs : Kept s.ledger s.table s.tickets := by
    rw [h₀.ledger]
    exact kept_ofRows h₀.seen
  have h : Kept r.ledger r.table r.tickets :=
    hr.invariant (P := fun s => Kept s.ledger s.table s.tickets) hs fun _ _ _ _ ht hf => ht.step hf
  cases hf
  exact h.persist.1

/-- Nothing traded yet. -/
def Keeper.empty : Keeper := ⟨⟨[], [], []⟩, .empty, []⟩

/-- Position 1 is opened and consumed, and position 2 amended and reduced, before they are first written. -/
theorem ledger_table_exact_sample :
    ∃ r r', Machine.Run Keeper.fire (fun _ _ => True) Keeper.empty r ∧
      r.fire .report = some r' ∧ r'.ledger.positions.map VirtualPosition.virtualId = [2, 3] ∧
      NetLedger.ofRows r'.table.rows = r'.ledger := by
  let deal (ticket volume : ℕ) (dealType : DealType) (entry : DealEntry) : Call :=
    .deal ⟨ticket, 7, 0, "EURUSD", dealType, entry, volume, 1, ticket⟩ "EURUSD" .unset
  obtain ⟨r, hr, hids⟩ : ∃ r, Machine.Run Keeper.fire (fun _ _ => True) Keeper.empty r ∧
      r.ledger.positions.map virtualId = [2, 3] :=
    Machine.exists_run [deal 1 100 .buy .entryIn, deal 2 50 .buy .entryIn, .protection "EURUSD" ⟨some 1, none⟩,
        deal 4 120 .sell .entryOut, deal 3 60 .buy .entryIn] Keeper.empty (by decide)
  have h₀ : Keeper.empty.Loaded := ⟨rfl, by simp [Keeper.empty]⟩
  exact ⟨r, _, hr, rfl, hids, ledger_table_exact h₀ hr rfl⟩

end Runs

end Copier.Mt5
