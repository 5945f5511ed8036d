import CopyTrading.Mt5.Ingress
import CopyTrading.Lib.Machine
import CopyTrading.Lib.Table

/-!
# Mt5.NetLedger — the ledger refines a netting terminal

A netting terminal keeps one signed volume per symbol; `Net.Produces` says which deals it can make.
The ledger keeps virtual positions, and its followers keep what the events told them.  The three stay
in step over every sequence of deals: the virtual positions of a symbol are on the net position's side
and add up to it, and the events replayed from the start are the ledger.
-/

namespace Copier.Mt5

open List Function VirtualPosition NetLedger

/-! ### The terminal -/

/-- Buying is positive. -/
def sign : Side → ℤ
  | .buy => 1
  | .sell => -1

/-- The net volume of each symbol. -/
abbrev Net : Type := String → ℤ

/-- The deals a netting account can make: `IN` starts or grows the net position, `OUT` takes at most its
volume, `INOUT` takes more and flips it. -/
def Net.Produces (net : Net) (d : ReportDeal) (side : Side) : Prop :=
  0 < d.volume ∧
    (d.entry = .entryIn ∧ 0 ≤ sign side * net d.symbol ∨
      d.entry = .entryOut ∧ d.volume ≤ -(sign side * net d.symbol) ∨
      d.entry = .entryInOut ∧ 0 < -(sign side * net d.symbol) ∧ -(sign side * net d.symbol) < d.volume)

instance (net : Net) (d : ReportDeal) (side : Side) : Decidable (net.Produces d side) :=
  inferInstanceAs (Decidable (_ ∧ _))

/-- The net volumes after a deal. -/
def Net.deal (net : Net) (d : ReportDeal) (side : Side) : Net :=
  Function.update net d.symbol (net d.symbol + sign side * d.volume)

section Sign

variable {a b : Side} {x : ℤ} {n : ℕ}

theorem abs_of_sign (h : 0 ≤ sign b * x) : |x| = sign b * x := by
  cases b <;> simp only [sign] at h ⊢
  · rw [abs_of_nonneg (by omega)]
    omega
  · rw [abs_of_nonpos (by omega)]
    omega

theorem abs_of_sign_neg (h : 0 ≤ -(sign b * x)) : |x| = -(sign b * x) := by
  rw [← abs_neg, abs_of_sign (b := b) (by linarith)]
  ring

theorem sign_mul_self (b : Side) (y : ℤ) : sign b * (sign b * y) = y := by
  cases b <;> simp [sign]

/-- A trade on the side of `x` grows it … -/
theorem abs_grow (h : 0 ≤ sign b * x) : |x + sign b * n| = |x| + n := by
  have hn : 0 ≤ sign b * (x + sign b * n) := by
    rw [mul_add, sign_mul_self]
    positivity
  rw [abs_of_sign hn, abs_of_sign h, mul_add, sign_mul_self]

/-- … and one against it takes from it. -/
theorem abs_shrink (h : (n : ℤ) ≤ -(sign b * x)) : |x + sign b * n| = |x| - n := by
  have hn : 0 ≤ -(sign b * (x + sign b * n)) := by
    rw [mul_add, sign_mul_self]
    linarith
  rw [abs_of_sign_neg hn, abs_of_sign_neg ((Nat.cast_nonneg n).trans h), mul_add, sign_mul_self]
  ring

theorem sign_grow (ha : 0 < sign a * x) (hb : 0 ≤ sign b * x) : 0 < sign a * (x + sign b * n) := by
  cases a <;> cases b <;> simp only [sign] at ha hb ⊢ <;> omega

theorem sign_shrink (ha : 0 < sign a * x) (hn : (n : ℤ) ≤ -(sign b * x)) (hlt : (n : ℤ) < |x|) :
    0 < sign a * (x + sign b * n) := by
  rw [abs_of_sign_neg ((Nat.cast_nonneg n).trans hn)] at hlt
  cases a <;> cases b <;> simp only [sign] at ha hlt ⊢ <;> omega

end Sign

/-! ### The followers' view -/

/-- What the events say of a virtual position. -/
structure CopiedPosition where
  positionId : ℕ
  symbolName : String
  side : Side
  volumeOpen : ℕ
  volumeLeft : ℕ
  levels : Levels
  deriving DecidableEq

/-- A close event states what is left; an emptied position is gone. -/
def replayClose (r : List CopiedPosition) (e : MasterPositionClosed) : List CopiedPosition :=
  if e.remainingVolume = 0 then r.filter fun c => c.positionId ≠ e.positionId
  else r.map fun c => if c.positionId = e.positionId then { c with volumeLeft := e.remainingVolume } else c

/-- Follow an opened or closed event. -/
def replayEvent (r : List CopiedPosition) : MasterEvent → List CopiedPosition
  | .positionOpened e =>
    r ++ [⟨e.positionId, e.symbolName, e.side, e.volume, e.volume, e.levels⟩]
  | .positionClosed e => replayClose r e
  | _ => r

/-- Every close takes from a position that has what is closed and what remains. -/
def Fits : List CopiedPosition → List MasterEvent → Prop
  | _, [] => True
  | r, e :: es =>
    (match e with
      | .positionClosed e => ∃ c ∈ r, c.positionId = e.positionId ∧
          e.closedVolume + e.remainingVolume = c.volumeLeft
      | _ => True) ∧ Fits (replayEvent r e) es

/-- A virtual position as its events told it. -/
def VirtualPosition.view (canonical : String → String) (v : VirtualPosition) : CopiedPosition :=
  ⟨v.virtualId, canonical v.symbol, v.side, v.volumeOpen, v.volumeLeft, v.levels⟩

/-! ### The three together -/

/-- The terminal, the ledger and the replay; the last deal's key and the tickets used so far. -/
structure NettingDesk where
  net : Net
  ledger : NetLedger
  replay : List CopiedPosition
  last : ℕ ×ₗ ℕ
  tickets : List ℕ

/-- The events of a deal; `levels` are the net position's. -/
def NettingDesk.events (canonical : String → String) (a : ReportDeal × Levels) (s : NettingDesk) :
    List MasterEvent :=
  (s.ledger.applyDeal a.1 (canonical a.1.symbol) a.2).2

/-- A deal the terminal can make, later than the last one and with a ticket of its own. -/
def NettingDesk.fire (canonical : String → String) (a : ReportDeal × Levels) (s : NettingDesk) :
    Option NettingDesk :=
  match a.1.dealType.side with
  | none => none
  | some side =>
    if s.net.Produces a.1 side ∧ s.last ≤ a.1.key ∧ a.1.ticket ∉ s.tickets then
      some ⟨s.net.deal a.1 side, (s.ledger.applyDeal a.1 (canonical a.1.symbol) a.2).1,
        (s.events canonical a).foldl replayEvent s.replay, a.1.key, a.1.ticket :: s.tickets⟩
    else none

/-- The volume the ledger holds of a symbol. -/
def NetLedger.held (l : NetLedger) (symbol : String) : ℕ :=
  ((l.ofSymbol symbol).map VirtualPosition.volumeLeft).sum

/-- The ledger has the net positions: all virtual positions on the net side, adding up to it. -/
structure NetLedger.InSync (l : NetLedger) (net : Net) : Prop where
  sided : ∀ v ∈ l.positions, 0 < sign v.side * net v.symbol
  held : ∀ symbol, (l.held symbol : ℤ) = |net symbol|
  volumes : ∀ v ∈ l.positions, 0 < v.volumeLeft ∧ v.volumeLeft ≤ v.volumeOpen
  ids : (l.positions.map VirtualPosition.virtualId).Nodup
  sorted : (l.positions.map VirtualPosition.key).Pairwise (· ≤ ·)

/-- A position is touched only once every older one of its symbol is gone. -/
def OldestFirst (l l' : NetLedger) : Prop :=
  ∀ v w, [v, w].Sublist l.positions → v.symbol = w.symbol → w ∉ l'.positions →
    ∀ u ∈ l'.positions, u.virtualId ≠ v.virtualId

/-- The ledger is in sync, its positions come from earlier deals, and the replay is the ledger. -/
structure NettingDesk.Synced (canonical : String → String) (s : NettingDesk) : Prop where
  inSync : s.ledger.InSync s.net
  seen : ∀ v ∈ s.ledger.positions, v.virtualId ∈ s.tickets ∧ v.key ≤ s.last
  replay : s.replay = s.ledger.positions.map (VirtualPosition.view canonical)

/-! ### Taking volume out of the ledger -/

section Consume

variable {ps : List VirtualPosition} {symbol : String} {n : ℕ} {v w : VirtualPosition}
  {other : String}

theorem drain_cases (v : VirtualPosition) (k : ℕ) : (v.volumeLeft - k = 0 ∧ v.drain k = none) ∨
      (v.volumeLeft - k ≠ 0 ∧ v.drain k = some { v with volumeLeft := v.volumeLeft - k }) := by
  unfold drain
  by_cases h : v.volumeLeft - k = 0
  · exact .inl ⟨h, if_pos h⟩
  · exact .inr ⟨h, if_neg h⟩

theorem drain_some {k : ℕ} (h : v.drain k = some w) :
    w = { v with volumeLeft := v.volumeLeft - k } ∧ v.volumeLeft - k ≠ 0 := by
  rcases drain_cases v k with ⟨-, hd⟩ | ⟨h0, hd⟩
  · rw [hd] at h
    simp at h
  · rw [hd] at h
    exact ⟨(Option.some.inj h).symm, h0⟩

theorem amount_self (h : 0 < v.amount symbol) :
    v.symbol = symbol ∧ v.amount symbol = v.volumeLeft := by
  unfold amount at h ⊢
  by_cases hs : v.symbol = symbol
  · exact ⟨hs, if_pos hs⟩
  · rw [if_neg hs] at h
    exact absurd h (lt_irrefl 0)

/-- What a close takes is gone from its symbol … -/
theorem sum_drain_self (v : VirtualPosition) (k : ℕ) (hk : 0 < k) (hle : k ≤ v.amount symbol) :
    ((v.drain k).toList.map (VirtualPosition.amount symbol)).sum = v.amount symbol - k := by
  obtain ⟨hs, ha⟩ := amount_self (hk.trans_le hle)
  rcases drain_cases v k with ⟨h0, hd⟩ | ⟨h0, hd⟩
  · rw [hd, ha, h0]
    rfl
  · rw [hd, ha]
    simp [amount, hs]

/-- … and from no other. -/
theorem sum_drain_other (ho : other ≠ symbol) (v : VirtualPosition) (k : ℕ) (hk : 0 < k)
    (hle : k ≤ v.amount symbol) :
    ((v.drain k).toList.map (VirtualPosition.amount other)).sum = v.amount other := by
  obtain ⟨hs, -⟩ := amount_self (hk.trans_le hle)
  have hne : v.symbol ≠ other := fun h => ho (h.symm.trans hs)
  rcases drain_cases v k with ⟨-, hd⟩ | ⟨-, hd⟩ <;> simp [hd, amount, hne]

theorem virtualId_drain (v : VirtualPosition) (k : ℕ) (w : VirtualPosition) (h : v.drain k = some w) :
    w.virtualId = v.virtualId := by rw [(drain_some h).1]

theorem key_drain (v : VirtualPosition) (k : ℕ) (w : VirtualPosition) (h : v.drain k = some w) :
    w.key = v.key := by
  rw [(drain_some h).1]
  rfl

/-- A position of the ledger after a close: as it was, but for less volume. -/
theorem mem_consumed
    (hw : w ∈ (Fifo.consume (VirtualPosition.amount symbol) VirtualPosition.drain ps n).1) :
    ∃ v ∈ ps, w.virtualId = v.virtualId ∧ w.symbol = v.symbol ∧ w.side = v.side ∧ w.key = v.key ∧
      w.volumeOpen = v.volumeOpen ∧ w.volumeLeft ≤ v.volumeLeft ∧ (0 < v.volumeLeft → 0 < w.volumeLeft) := by
  rcases Fifo.mem_left hw with h | ⟨v, hv, k, -, -, hd⟩
  · exact ⟨w, h, rfl, rfl, rfl, rfl, rfl, le_rfl, id⟩
  · obtain ⟨rfl, h0⟩ := drain_some hd
    exact ⟨v, hv, rfl, rfl, rfl, rfl, rfl, Nat.sub_le _ _, fun _ => Nat.pos_of_ne_zero h0⟩

theorem held_eq (l : NetLedger) (symbol : String) :
    l.held symbol = (l.positions.map (VirtualPosition.amount symbol)).sum := by
  unfold NetLedger.held ofSymbol
  rw [sum_map_filter]
  simp only [decide_eq_true_eq]
  rfl

theorem positions_noteClosed (l : NetLedger) (es : List MasterPositionClosed) :
    (es.foldl NetLedger.noteClosed l).positions = l.positions := by
  induction es generalizing l with
  | nil => rfl
  | cons e es ih =>
    rw [foldl_cons, ih]
    unfold noteClosed
    split_ifs <;> rfl

theorem positions_consume (l : NetLedger) (symbol canonical : String) (n : ℕ) :
    (l.consume symbol canonical n).1.positions =
      (Fifo.consume (VirtualPosition.amount symbol) VirtualPosition.drain l.positions n).1 :=
  positions_noteClosed _ _

theorem held_consume (l : NetLedger) (symbol canonical : String) (n : ℕ) :
    (l.consume symbol canonical n).1.held symbol = l.held symbol - n := by
  rw [held_eq, held_eq, positions_consume]
  exact Fifo.sum_left sum_drain_self l.positions n

theorem held_consume_other (l : NetLedger) {symbol : String} (ho : other ≠ symbol)
    (canonical : String) (n : ℕ) : (l.consume symbol canonical n).1.held other = l.held other := by
  rw [held_eq, held_eq, positions_consume]
  exact Fifo.sum_kept (sum_drain_other ho) l.positions n

/-- A symbol with a virtual position holds something. -/
theorem volumeLeft_le_held {l : NetLedger} (hv : v ∈ l.positions) :
    v.volumeLeft ≤ l.held v.symbol := by
  rw [held_eq]
  refine le_sum_of_mem (mem_map.2 ⟨v, hv, ?_⟩)
  exact if_pos rfl

end Consume

/-! ### The events replayed -/

section Replay

/-- A close names one position of the replay. -/
theorem replayClose_at (canonical : String → String) (name : String) (k : ℕ)
    {before after : List CopiedPosition} {v : VirtualPosition}
    (hb : ∀ c ∈ before, c.positionId ≠ v.virtualId) (ha : ∀ c ∈ after, c.positionId ≠ v.virtualId) :
    replayClose (before ++ v.view canonical :: after) (NetLedger.closedEvent name (v, k)) =
      before ++ (v.drain k).toList.map (VirtualPosition.view canonical) ++ after := by
  have hmap : ∀ (l : List CopiedPosition) (left : ℕ), (∀ c ∈ l, c.positionId ≠ v.virtualId) →
      (l.map fun c => if c.positionId = v.virtualId then { c with volumeLeft := left } else c) = l := by
    intro l left hl
    conv_rhs => rw [← map_id l]
    exact map_congr_left fun c hc => if_neg (hl c hc)
  have hfilter : ∀ l : List CopiedPosition, (∀ c ∈ l, c.positionId ≠ v.virtualId) →
      l.filter (fun c => c.positionId ≠ v.virtualId) = l :=
    fun l hl => filter_eq_self.2 fun c hc => decide_eq_true (hl c hc)
  unfold replayClose closedEvent
  rcases drain_cases v k with ⟨h0, hd⟩ | ⟨h0, hd⟩
  · rw [if_pos h0, hd, filter_append, hfilter before hb,
      filter_cons_of_neg (by simp [view]), hfilter after ha]
    simp
  · rw [if_neg h0, hd, map_append, hmap before _ hb, map_cons, hmap after _ ha]
    simp [view]

/-- **The closes of a deal, replayed, are the ledger's.**  The induction is on the positions still to
come; `before` are those already passed. -/
theorem replay_closes (canonical : String → String) (symbol name : String) (ps : List VirtualPosition) (n : ℕ)
    (before : List CopiedPosition)
    (hnd : (before.map CopiedPosition.positionId ++ ps.map VirtualPosition.virtualId).Nodup) :
    let r := Fifo.consume (amount symbol) drain ps n
    let es := (r.2.map (closedEvent name)).map MasterEvent.positionClosed
    es.foldl replayEvent (before ++ ps.map (view canonical)) =
        before ++ r.1.map (view canonical) ∧
      Fits (before ++ ps.map (view canonical)) es := by
  induction ps generalizing before n with
  | nil => exact ⟨rfl, trivial⟩
  | cons v ps ih =>
    intro r es
    have hids : ∀ k, ((before ++ (v.drain k).toList.map (view canonical)).map
        CopiedPosition.positionId ++ ps.map virtualId).Nodup := by
      intro k
      refine hnd.sublist ?_
      rw [map_append, append_assoc]
      refine Sublist.append_left ?_ _
      rcases drain_cases v k with ⟨-, hd⟩ | ⟨-, hd⟩
      · rw [hd]
        exact sublist_cons_self _ _
      · rw [hd]
        exact Sublist.refl _
    have happ : before ++ (v :: ps).map (view canonical) =
        (before ++ [v.view canonical]) ++ ps.map (view canonical) := by simp
    rcases Fifo.consume_cons (amount symbol) drain v ps n with
      ⟨hk, he⟩ | ⟨hk, he⟩
    · -- an untouched position joins those passed
      obtain ⟨hfold, hfits⟩ := ih n (before ++ [v.view canonical])
        (by simpa [view] using hnd)
      simp only [r, es, he, happ]
      refine ⟨hfold.trans ?_, hfits⟩
      simp
    · obtain ⟨hfold, hfits⟩ := ih (n - min (v.amount symbol) n)
        (before ++ (v.drain (min (v.amount symbol) n)).toList.map (view canonical)) (hids _)
      have hb : ∀ c ∈ before, c.positionId ≠ v.virtualId := by
        intro c hc hcv
        have hdis := disjoint_of_nodup_append hnd
        exact hdis (mem_map_of_mem hc) (by simp [hcv])
      have ha : ∀ c ∈ ps.map (view canonical), c.positionId ≠ v.virtualId := by
        intro c hc hcv
        obtain ⟨w, hw, rfl⟩ := mem_map.1 hc
        have hnd' := (nodup_append.1 hnd).2.1
        rw [map_cons, nodup_cons] at hnd'
        exact hnd'.1 (mem_map.2 ⟨w, hw, hcv⟩)
      have hstep := replayClose_at canonical name (min (v.amount symbol) n) hb ha
      simp only [r, es, he, map_cons, foldl_cons, Fits, replayEvent]
      rw [hstep]
      refine ⟨hfold.trans (by simp), ⟨v.view canonical, by simp, rfl, ?_⟩, hfits⟩
      have hpos : 0 < v.amount symbol := by omega
      have ham := (amount_self hpos).2
      simp only [closedEvent, view]
      omega

end Replay

/-! ### One deal -/

section Deal

variable {l : NetLedger} {net : Net} {d : ReportDeal} {side : Side} {canonical : String → String}

/-- A deal later than all positions opens at the end. -/
theorem positions_openVirtual (side : Side) (volume : ℕ) (levels : Levels)
    (hs : (l.positions.map VirtualPosition.key).Pairwise (· ≤ ·)) (hk : ∀ v ∈ l.positions, v.key ≤ d.key) :
    (l.openVirtual d side volume levels).positions =
      l.positions ++ [⟨d.ticket, d.symbol, side, volume, volume, levels, d.timeMs⟩] := by
  show sorted _ = _
  apply Pairwise.insertionSort_eq
  rw [pairwise_append]
  refine ⟨pairwise_map.1 hs, pairwise_singleton _ _, fun v hv w hw => ?_⟩
  rw [mem_singleton.1 hw]
  exact hk v hv

/-- Growing the net position, or starting it, keeps the ledger in sync. -/
theorem NetLedger.InSync.openVirtual (h : l.InSync net) {volume : ℕ} (hv : 0 < volume)
    (hside : 0 ≤ sign side * net d.symbol) (levels : Levels)
    (hnew : ∀ v ∈ l.positions, v.virtualId ≠ d.ticket ∧ v.key ≤ d.key) :
    (l.openVirtual d side volume levels).InSync
      (Function.update net d.symbol (net d.symbol + sign side * volume)) := by
  have hps := positions_openVirtual side volume levels h.sorted fun v hv => (hnew v hv).2
  constructor
  case sided =>
    rw [hps]
    intro v hv
    rcases mem_append.1 hv with hv | hv
    · by_cases hs : v.symbol = d.symbol
      · have hnet := h.sided v hv
        rw [hs] at hnet
        rw [hs, update_self]
        exact sign_grow hnet hside
      · rw [update_of_ne hs]
        exact h.sided v hv
    · rw [mem_singleton.1 hv, update_self]
      cases side <;> simp only [sign] at hside ⊢ <;> omega
  case held =>
    intro symbol
    have hheld := h.held symbol
    rw [held_eq] at hheld
    rw [held_eq, hps, map_append, sum_append, Nat.cast_add, hheld]
    by_cases hs : symbol = d.symbol
    · subst hs
      rw [update_self]
      simp [amount, abs_grow hside]
    · rw [update_of_ne hs]
      simp [amount, Ne.symm hs]
  case volumes =>
    rw [hps]
    refine forall_mem_append.2 ⟨h.volumes, forall_mem_singleton.2 ?_⟩
    exact ⟨hv, le_rfl⟩
  case ids =>
    rw [hps, map_append]
    refine Nodup.append h.ids (nodup_singleton _) ?_
    simp only [map_cons, map_nil, disjoint_singleton]
    intro hm
    obtain ⟨v, hv', hid⟩ := mem_map.1 hm
    exact (hnew v hv').1 hid
  case sorted =>
    rw [hps, map_append, pairwise_append]
    refine ⟨h.sorted, pairwise_singleton _ _, fun x hx y hy => ?_⟩
    obtain ⟨v, hv', rfl⟩ := mem_map.1 hx
    rw [mem_singleton.1 hy]
    exact (hnew v hv').2

/-- Taking volume out of the net position keeps the ledger in sync. -/
theorem NetLedger.InSync.consume (h : l.InSync net) {symbol : String} {n : ℕ}
    (hn : (n : ℤ) ≤ -(sign side * net symbol)) (name : String) : (l.consume symbol name n).1.InSync
      (Function.update net symbol (net symbol + sign side * n)) := by
  have hheld := h.held symbol
  have hleft := held_consume l symbol name n
  have hps := positions_consume l symbol name n
  constructor
  case sided =>
    intro w hw
    have hpos := volumeLeft_le_held hw
    rw [hps] at hw
    obtain ⟨v, hv, -, hsym, hsd, -, -, -, hw0⟩ := mem_consumed hw
    have hnet := h.sided v hv
    by_cases hs : w.symbol = symbol
    · have hw0 := hw0 (h.volumes v hv).1
      rw [hs, update_self, hsd]
      rw [← hsym, hs] at hnet
      rw [hs, hleft] at hpos
      exact sign_shrink hnet hn (by omega)
    · rw [update_of_ne hs, hsd, hsym]
      exact hnet
  case held =>
    intro other
    by_cases hs : other = symbol
    · subst hs
      rw [update_self, hleft, abs_shrink hn, ← hheld]
      have hle : (n : ℤ) ≤ l.held other := by
        rw [hheld, abs_of_sign_neg ((Nat.cast_nonneg n).trans hn)]
        exact hn
      omega
    · rw [update_of_ne hs, held_consume_other l hs]
      exact h.held other
  case volumes =>
    rw [hps]
    intro w hw
    obtain ⟨v, hv, -, -, -, -, hopen, hle, hw0⟩ := mem_consumed hw
    have hvol := h.volumes v hv
    exact ⟨hw0 hvol.1, by omega⟩
  case ids =>
    rw [hps]
    exact h.ids.sublist (Fifo.sublist_map virtualId_drain _ _)
  case sorted =>
    rw [hps]
    exact h.sorted.sublist (Fifo.sublist_map key_drain _ _)

/-- What a deal does: the ledger stays in sync, its positions are older ones and the deal's own, the
events are the ledger's change, and volume leaves oldest first. -/
structure Traded (canonical : String → String) (net' : Net) (d : ReportDeal) (l : NetLedger)
    (r : NetLedger × List MasterEvent) : Prop where
  inSync : r.1.InSync net'
  known : ∀ v ∈ r.1.positions, (v.virtualId = d.ticket ∧ v.key = d.key) ∨
    ∃ w ∈ l.positions, v.virtualId = w.virtualId ∧ v.key = w.key
  replay : r.2.foldl replayEvent (l.positions.map (VirtualPosition.view canonical)) =
    r.1.positions.map (VirtualPosition.view canonical)
  fits : Fits (l.positions.map (VirtualPosition.view canonical)) r.2
  oldestFirst : OldestFirst l r.1

theorem NetLedger.InSync.oldestFirst_consume (h : l.InSync net) (symbol name : String) (n : ℕ) :
    OldestFirst l (l.consume symbol name n).1 := by
  intro v w hvw hsym hw u hu huv
  rw [positions_consume] at hw hu
  obtain ⟨k, hk⟩ := Fifo.taken_of_not_mem (hvw.subset (by simp)) hw
  obtain ⟨-, hk0, hkw⟩ := Fifo.mem_taken hk
  obtain ⟨hws, -⟩ := amount_self (hk0.trans_le hkw)
  have hv := hvw.subset (mem_cons_self (a := v))
  have hamount : v.amount symbol = v.volumeLeft := if_pos (hsym.trans hws)
  have hall := Fifo.taken_all_before hvw (by rw [hamount]; exact (h.volumes v hv).1)
    (h.ids.of_map _) hk
  have hnone : v.drain (v.amount symbol) = none := by
    rw [hamount, drain, Nat.sub_self]
    exact if_pos rfl
  exact Fifo.not_mem_of_taken virtualId_drain h.ids hall hnone (mem_map.2 ⟨u, hu, huv⟩)

/-- An outgoing deal. -/
theorem NetLedger.InSync.traded_out (h : l.InSync net) (name : String) {n : ℕ}
    (hn : (n : ℤ) ≤ -(sign side * net d.symbol)) :
    Traded canonical (Function.update net d.symbol (net d.symbol + sign side * n)) d l
      (NetLedger.applyDeal.closing (l.consume d.symbol name n)) := by
  obtain ⟨hreplay, hfits⟩ := replay_closes canonical d.symbol name l.positions n [] h.ids
  constructor
  case inSync => exact h.consume hn name
  case known =>
    intro w hw
    have hw' := (positions_consume l d.symbol name n) ▸ hw
    obtain ⟨v, hv, hid, -, -, hkey, -⟩ := mem_consumed hw'
    exact .inr ⟨v, hv, hid, hkey⟩
  case replay =>
    have hps := positions_consume l d.symbol name n
    show _ = (l.consume d.symbol name n).1.positions.map _
    rw [hps]
    exact hreplay
  case fits => exact hfits
  case oldestFirst => exact h.oldestFirst_consume d.symbol name n

/-- An incoming deal. -/
theorem NetLedger.InSync.traded_in (h : l.InSync net) {volume : ℕ} (hv : 0 < volume)
    (hside : 0 ≤ sign side * net d.symbol) (levels : Levels)
    (hnew : ∀ v ∈ l.positions, v.virtualId ≠ d.ticket ∧ v.key ≤ d.key) :
    Traded canonical (Function.update net d.symbol (net d.symbol + sign side * volume)) d l
      (l.openVirtual d side volume levels,
        [NetLedger.openedEvent d (canonical d.symbol) side volume levels]) := by
  have hps := positions_openVirtual side volume levels h.sorted fun v hv => (hnew v hv).2
  constructor
  case inSync => exact h.openVirtual hv hside levels hnew
  case known =>
    intro v hv
    rw [hps] at hv
    rcases mem_append.1 hv with hv | hv
    · exact .inr ⟨v, hv, rfl, rfl⟩
    · rw [mem_singleton.1 hv]
      exact .inl ⟨rfl, rfl⟩
  case replay =>
    rw [hps, map_append]
    rfl
  case fits => exact ⟨trivial, trivial⟩
  case oldestFirst =>
    intro v w hvw hsym hw
    rw [hps] at hw
    exact absurd (mem_append_left _ (hvw.subset (by simp))) hw

theorem Fits.append {r : List CopiedPosition} {es es' : List MasterEvent} (h : Fits r es)
    (h' : Fits (es.foldl replayEvent r) es') : Fits r (es ++ es') := by
  induction es generalizing r with
  | nil => exact h'
  | cons e es ih => exact ⟨h.1, ih h.2 h'⟩

/-- A reversal: all of the symbol is closed, the rest opens on the other side. -/
theorem Traded.trans {net₁ net₂ : Net} {r₁ r₂ : NetLedger × List MasterEvent}
    (h₁ : Traded canonical net₁ d l r₁) (h₂ : Traded canonical net₂ d r₁.1 r₂)
    (hfresh : ∀ v ∈ l.positions, v.virtualId ≠ d.ticket) (hkeep : r₁.1.positions ⊆ r₂.1.positions)
    (hnew : ∀ v ∈ r₂.1.positions, v ∈ r₁.1.positions ∨ v.virtualId = d.ticket) :
    Traded canonical net₂ d l (r₂.1, r₁.2 ++ r₂.2) := by
  constructor
  case inSync => exact h₂.inSync
  case known =>
    intro v hv
    rcases h₂.known v hv with hd | ⟨w, hw, hid, hkey⟩
    · exact .inl hd
    · rcases h₁.known w hw with hd | ⟨u, hu, hid', hkey'⟩
      · exact .inl ⟨hid.trans hd.1, hkey.trans hd.2⟩
      · exact .inr ⟨u, hu, hid.trans hid', hkey.trans hkey'⟩
  case replay => rw [foldl_append, h₁.replay, h₂.replay]
  case fits => exact h₁.fits.append (h₁.replay ▸ h₂.fits)
  case oldestFirst =>
    intro v w hvw hsym hw u hu
    rcases hnew u hu with hu | hu
    · exact h₁.oldestFirst v w hvw hsym (fun hm => hw (hkeep hm)) u hu
    · rw [hu]
      exact (hfresh v (hvw.subset mem_cons_self)).symm

/-- **One deal of the terminal**, whatever its kind. -/
theorem NetLedger.InSync.traded (h : l.InSync net) (hside : d.dealType.side = some side)
    (hp : net.Produces d side) (levels : Levels)
    (hnew : ∀ v ∈ l.positions, v.virtualId ≠ d.ticket ∧ v.key ≤ d.key) :
    Traded canonical (net.deal d side) d l (l.applyDeal d (canonical d.symbol) levels) := by
  obtain ⟨hv, hkind⟩ := hp
  have hv0 : d.volume ≠ 0 := by omega
  unfold applyDeal Net.deal
  simp only [hside, if_neg hv0]
  rcases hkind with ⟨he, hk⟩ | ⟨he, hk⟩ | ⟨he, hk, hlt⟩
  · rw [he]
    exact h.traded_in hv hk levels hnew
  · rw [he]
    exact h.traded_out (canonical d.symbol) hk
  · rw [he]
    simp only
    set held := ((l.ofSymbol d.symbol).map volumeLeft).sum with hdef
    have hheld : (held : ℤ) = -(sign side * net d.symbol) :=
      (h.held d.symbol).trans (abs_of_sign_neg hk.le)
    rw [if_pos (by omega)]
    have hout : Traded canonical _ d l _ := h.traded_out (canonical d.symbol) hheld.le
    have hflat : sign side * update net d.symbol (net d.symbol + sign side * held) d.symbol = 0 := by
      rw [update_self, mul_add, sign_mul_self, hheld]
      ring
    have hnew' : ∀ v ∈ (l.consume d.symbol (canonical d.symbol) held).1.positions,
        v.virtualId ≠ d.ticket ∧ v.key ≤ d.key := by
      intro v hv
      rw [positions_consume] at hv
      obtain ⟨w, hw, hid, -, -, hkey, -⟩ := mem_consumed hv
      rw [hid, hkey]
      exact hnew w hw
    have hin : Traded canonical _ d _ _ :=
      hout.inSync.traded_in (show 0 < d.volume - held by omega) hflat.ge levels hnew'
    have hnet : update (update net d.symbol (net d.symbol + sign side * held)) d.symbol
        (update net d.symbol (net d.symbol + sign side * held) d.symbol +
          sign side * ((d.volume - held : ℕ) : ℤ)) =
        update net d.symbol (net d.symbol + sign side * d.volume) := by
      rw [update_idem, update_self, Nat.cast_sub (by omega)]
      congr 1
      ring
    have hps := positions_openVirtual side (d.volume - held) levels hout.inSync.sorted
      fun v hv => (hnew' v hv).2
    rw [hnet] at hin
    refine hout.trans hin (fun v hv => (hnew v hv).1) ?_ ?_
    · intro v hv
      show v ∈ (NetLedger.openVirtual _ d side (d.volume - held) levels).positions
      rw [hps]
      exact mem_append_left _ hv
    · intro v hv
      have hv' : v ∈ (NetLedger.openVirtual _ d side (d.volume - held) levels).positions := hv
      rw [hps] at hv'
      rcases mem_append.1 hv' with hv' | hv'
      · exact .inl hv'
      · rw [mem_singleton.1 hv']
        exact .inr rfl

end Deal

/-! ### Every sequence of deals -/

section Run

variable {canonical : String → String} {s s' : NettingDesk} {a : ReportDeal × Levels}

theorem NettingDesk.fire_cases (h : s.fire canonical a = some s') :
    ∃ side, a.1.dealType.side = some side ∧ s.net.Produces a.1 side ∧ s.last ≤ a.1.key ∧
      a.1.ticket ∉ s.tickets ∧
      s' = ⟨s.net.deal a.1 side, (s.ledger.applyDeal a.1 (canonical a.1.symbol) a.2).1,
        (s.events canonical a).foldl replayEvent s.replay, a.1.key, a.1.ticket :: s.tickets⟩ := by
  unfold NettingDesk.fire at h
  cases hs : a.1.dealType.side with
  | none => simp [hs] at h
  | some side =>
    simp only [hs] at h
    split_ifs at h with hc
    exact ⟨side, rfl, hc.1, hc.2.1, hc.2.2, (Option.some.inj h).symm⟩

/-- **One step**: the desk stays synced, the events fit, and volume leaves oldest first. -/
theorem NettingDesk.Synced.step (h : s.Synced canonical) (hf : s.fire canonical a = some s') :
    s'.Synced canonical ∧ Fits s.replay (s.events canonical a) ∧ OldestFirst s.ledger s'.ledger := by
  obtain ⟨side, hside, hp, hlast, hfresh, rfl⟩ := NettingDesk.fire_cases hf
  have hnew : ∀ v ∈ s.ledger.positions, v.virtualId ≠ a.1.ticket ∧ v.key ≤ a.1.key := by
    intro v hv
    obtain ⟨hid, hkey⟩ := h.seen v hv
    refine ⟨?_, hkey.trans hlast⟩
    rintro heq
    exact hfresh (heq ▸ hid)
  have ht : Traded canonical _ a.1 s.ledger _ := h.inSync.traded hside hp a.2 hnew
  refine ⟨⟨ht.inSync, ?_, ?_⟩, ?_, ht.oldestFirst⟩
  · intro v hv
    rcases ht.known v hv with ⟨hid, hkey⟩ | ⟨w, hw, hid, hkey⟩
    · rw [hid, hkey]
      exact ⟨mem_cons_self, le_rfl⟩
    · rw [hid, hkey]
      exact ⟨mem_cons_of_mem _ (h.seen w hw).1, (hnew w hw).2⟩
  · rw [h.replay]
    exact ht.replay
  · rw [h.replay]
    exact ht.fits

/-- **The ledger refines the netting terminal**: from a ledger in sync, after every sequence of deals it
is in sync again (all virtual positions of a symbol on the net side, adding up to the net volume, each
with `0 < volume_left ≤ volume_open`, ids distinct) and is what its events replayed from the start say;
and whatever deal comes next, each of its closes takes from a position that has what is closed and what
remains, and a position is touched only once the older ones of its symbol are gone. -/
theorem net_ledger_refines (h₀ : s.Synced canonical)
    (hr : Machine.Run (NettingDesk.fire canonical) (fun _ _ => True) s s') :
    s'.ledger.InSync s'.net ∧ s'.replay = s'.ledger.positions.map (VirtualPosition.view canonical) ∧
      ∀ a s'', s'.fire canonical a = some s'' →
        Fits s'.replay (s'.events canonical a) ∧ OldestFirst s'.ledger s''.ledger := by
  have h : s'.Synced canonical := hr.invariant h₀ fun a t u _ ht hf => (ht.step hf).1
  exact ⟨h.inSync, h.replay, fun a s'' hf => (h.step hf).2⟩

/-- Nothing traded yet. -/
def NettingDesk.empty : NettingDesk := ⟨fun _ => 0, ⟨[], [], []⟩, [], toLex (0, 0), []⟩

theorem NettingDesk.empty_synced (canonical : String → String) : NettingDesk.empty.Synced canonical where
  inSync := ⟨by simp [NettingDesk.empty], by simp [NettingDesk.empty, held_eq], by simp [NettingDesk.empty],
    nodup_nil, Pairwise.nil⟩
  seen := by simp [NettingDesk.empty]
  replay := rfl

/-- Two buys, a partial close and a reversal. -/
theorem net_ledger_refines_sample :
    ∃ s, Machine.Run (NettingDesk.fire id) (fun _ _ => True) .empty s ∧ s.net "EURUSD" = -30 ∧
      s.ledger.held "EURUSD" = 30 ∧ s.ledger.InSync s.net := by
  let deal (ticket volume : ℕ) (dealType : DealType) (entry : DealEntry) : ReportDeal × Levels :=
    (⟨ticket, 7, 0, "EURUSD", dealType, entry, volume, 1, ticket⟩, .unset)
  refine Machine.exists_run_and₂ [deal 1 100 .buy .entryIn, deal 2 50 .buy .entryIn, deal 3 120 .sell .entryOut,
    deal 4 60 .sell .entryInOut] NettingDesk.empty ?_
  intro s hr _ _
  exact (net_ledger_refines (NettingDesk.empty_synced id) hr).1

end Run

end Copier.Mt5
