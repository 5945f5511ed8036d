import CopyTrading.Copier.System

/-!
# Copier.Broker — what the accounts can do

The events of the master and the moves of a slave's broker, with their guards and everything they
change.  Later proofs go by these cases and never unfold `next`, `execute` or `trigger`.
-/

namespace Copier

open Account

/-! ### The master -/

/-- An event of the master and what it changes. -/
inductive Master.Next (m : Master) : MasterEvent → Master → Prop
  | opened (e : MasterPositionOpened) (hn : m.positions e.positionId = none) (hv : 0 < e.volume) :
      Next m (.positionOpened e) (m.setPosition e.positionId ⟨e.symbolName, e.volume, e.levels⟩)
  | increased (e : MasterPositionOpened) (x : MasterPosition)
      (hx : m.positions e.positionId = some x) (hpos : 0 < x.volume) (hv : 0 < e.volume)
      (hs : x.symbolName = e.symbolName) :
      Next m (.positionOpened e) (m.setPosition e.positionId
        { x with volume := x.volume + e.volume, levels := e.levels })
  | closed (e : MasterPositionClosed) (x : MasterPosition) (hx : m.positions e.positionId = some x)
      (hv : 0 < e.closedVolume) (hsum : x.volume = e.closedVolume + e.remainingVolume)
      (hs : x.symbolName = e.symbolName) :
      Next m (.positionClosed e) (m.setPosition e.positionId { x with volume := e.remainingVolume })
  | amended (e : MasterPositionSLTPAmended) (x : MasterPosition)
      (hx : m.positions e.positionId = some x) (hpos : 0 < x.volume) :
      Next m (.positionSLTPAmended e) (m.setPosition e.positionId { x with levels := e.levels })
  | placed (e : MasterPendingPlaced) (hn : m.orders e.orderId = none) (hv : 0 < e.volume) :
      Next m (.pendingPlaced e) (m.setOrder e.orderId ⟨e.symbolName, e.volume, e.levels, .resting⟩)
  | replaced (e : MasterPendingReplaced) (x : MasterOrder) (hx : m.orders e.orderId = some x)
      (hr : x.status = .resting) (hv : 0 < e.volume) (hs : x.symbolName = e.symbolName) :
      Next m (.pendingReplaced e)
        (m.setOrder e.orderId { x with volume := e.volume, levels := e.levels })
  | cancelled (o : ℕ) (x : MasterOrder) (hx : m.orders o = some x) (hr : x.status = .resting) :
      Next m (.pendingCancelled o) (m.setOrder o { x with status := .cancelled })
  | filled (o p : ℕ) (x : MasterOrder) (hx : m.orders o = some x) (hr : x.status = .resting)
      (hv : 0 < x.volume) (hn : m.positions p = none) :
      Next m (.pendingFilled o p) ((m.setOrder o { x with status := .filled p }).setPosition p
        ⟨x.symbolName, x.volume, x.levels⟩)
  | rejected (reason : String) : Next m (.rejected reason) m

theorem Master.next_cases {m m' : Master} {e : MasterEvent} (h : m.next e = some m') :
    m.Next e m' := by
  cases e with
  | positionOpened e =>
    simp only [next] at h
    split at h
    · next hx =>
      split_ifs at h with hv
      cases h
      exact .opened e hx hv
    · next x hx =>
      split_ifs at h with hc
      cases h
      exact .increased e x hx hc.1 hc.2.1 hc.2.2
  | positionClosed e =>
    simp only [next] at h
    split at h
    · cases h
    · next x hx =>
      split_ifs at h with hc
      cases h
      exact .closed e x hx hc.1 hc.2.1 hc.2.2
  | positionSLTPAmended e =>
    simp only [next] at h
    split at h
    · cases h
    · next x hx =>
      split_ifs at h with hc
      cases h
      exact .amended e x hx hc
  | pendingPlaced e =>
    simp only [next] at h
    split at h
    · next hx =>
      split_ifs at h with hv
      cases h
      exact .placed e hx hv
    · cases h
  | pendingReplaced e =>
    simp only [next] at h
    split at h
    · cases h
    · next x hx =>
      split_ifs at h with hc
      cases h
      exact .replaced e x hx hc.1 hc.2.1 hc.2.2
  | pendingCancelled o =>
    simp only [next] at h
    split at h
    · cases h
    · next x hx =>
      split_ifs at h with hc
      cases h
      exact .cancelled o x hx hc
  | pendingFilled o p =>
    simp only [next] at h
    split at h
    · cases h
    · next x hx =>
      split_ifs at h with hc
      cases h
      exact .filled o p x hx hc.1 hc.2.1 hc.2.2
  | rejected reason =>
    cases h
    exact .rejected reason

/-! ### A slave's broker -/

/-- A request that changes nothing: it opens nothing, and what it closes or cancels is gone. -/
structure Account.Ignores (x : Account) (i : SlaveIntent) : Prop where
  opens : clientOrderIdFor i = none
  closes : ∀ j, i = .closePosition j → ∀ q ∈ x.positions.rows, q.id = j.positionId →
    min j.volume q.volume = 0
  cancels : ∀ j, i = .cancelPending j → ∀ q ∈ x.orders.rows, q.id = j.orderId → q.status ≠ .resting

/-- One move of a broker, for the request it executes (none when a resting order fills). -/
inductive Move (x : Account) : Option SlaveIntent → Account → Prop
  | idle (i : SlaveIntent) (h : x.Ignores i) : Move x (some i) x
  | grow (i : OpenMarket) (q : BrokerPosition)
      (hq : q ∈ x.positions.rows) (hv : 0 < q.volume)
      (hc : q.clientOrderId = .cm i.masterPositionId i.slaveAccountId) :
      Move x (some (.openMarket i)) { x with
        positions := x.positions.modify q.id (Account.addVolume i.volume) fun _ => rfl
        reports := x.reports ++ [Account.openFill q.clientOrderId q.id i.volume none] }
  | start (i : OpenMarket) (π : ℕ) (hf : x.positions.find π = none)
      (hno : ∀ q ∈ x.positions.rows, q.clientOrderId = .cm i.masterPositionId i.slaveAccountId →
        q.volume = 0) :
      Move x (some (.openMarket i)) { x with
        positions := x.positions.insert ⟨π, .cm i.masterPositionId i.slaveAccountId, i.volume⟩
        reports := x.reports ++
          [Account.openFill (.cm i.masterPositionId i.slaveAccountId) π i.volume none] }
  | close (i : ClosePosition) (q : BrokerPosition) (hq : q ∈ x.positions.rows)
      (hi : i.positionId = q.id) (hk : 0 < min i.volume q.volume) :
      Move x (some (.closePosition i)) { x with
        positions := x.positions.modify q.id (Account.subVolume (min i.volume q.volume)) fun _ => rfl
        reports := x.reports ++ [Account.closeFill q.id (min i.volume q.volume)] }
  | place (i : PlacePending) (ω : ℕ) (hf : x.orders.find ω = none) :
      Move x (some (.placePending i)) { x with
        orders := x.orders.insert ⟨ω, .co i.masterOrderId i.slaveAccountId, i.volume, .resting⟩
        reports := x.reports ++ [.accepted (some (.co i.masterOrderId i.slaveAccountId)) ω] }
  | resize (i : AmendPending) (q : BrokerOrder) (hq : q ∈ x.orders.rows)
      (hs : q.status = .resting) (hi : i.orderId = q.id) :
      Move x (some (.amendPending i)) { x with
        orders := x.orders.modify q.id (Account.resize i.volume) fun _ => rfl }
  | cancel (i : CancelPending) (q : BrokerOrder) (hq : q ∈ x.orders.rows)
      (hs : q.status = .resting) (hi : i.orderId = q.id) :
      Move x (some (.cancelPending i)) { x with
        orders := x.orders.modify q.id (Account.mark .cancelled) fun _ => rfl
        reports := x.reports ++ [.cancelled q.id] }
  | trigger (q : BrokerOrder) (π : ℕ) (hq : q ∈ x.orders.rows) (hs : q.status = .resting)
      (hf : x.positions.find π = none) :
      Move x none { x with
        orders := x.orders.modify q.id (Account.mark .filled) fun _ => rfl
        positions := x.positions.insert ⟨π, q.clientOrderId, q.volume⟩
        reports := x.reports ++ [Account.openFill q.clientOrderId π q.volume (some q.id)] }

section Move

variable {x x' : Account} {fresh : ℕ} {i : SlaveIntent} {io : Option SlaveIntent}

theorem Move.log (h : Move x io x') : x'.log = x.log := by
  cases h <;> rfl

theorem Move.requests (h : Move x io x') : x'.requests = x.requests := by
  cases h <;> rfl

theorem eq_of_position_id {q q' : BrokerPosition} (h : q ∈ x.positions.rows)
    (h' : q' ∈ x.positions.rows) (he : q.id = q'.id) : q = q' :=
  List.inj_on_of_nodup_map x.positions.nodup h h' he

theorem eq_of_order_id {q q' : BrokerOrder} (h : q ∈ x.orders.rows) (h' : q' ∈ x.orders.rows)
    (he : q.id = q'.id) : q = q' :=
  List.inj_on_of_nodup_map x.orders.nodup h h' he

/-- A rewrite that changes nothing where it applies changes nothing. -/
theorem modify_eq_self {α : Type} [Keyed α ℕ] {t : Table α} {k : ℕ} {f : α → α}
    {p : ∀ r, Keyed.key (f r) = Keyed.key r} (h : ∀ r ∈ t.rows, Keyed.key r = k → f r = r) :
    t.modify k f p = t := by
  have hrows : t.rows.map (fun r => if Keyed.key r = k then f r else r) = t.rows := by
    refine (List.map_congr_left fun r hr => ?_).trans (List.map_id _)
    split_ifs with hk
    · exact h r hr hk
    · rfl
  cases t
  simp only [Table.modify, Table.update] at hrows ⊢
  congr

theorem land_new {c : ClientOrderId} {π v : ℕ} {ω : Option ℕ} (hf : x.positions.find π = none) :
    x.land c π v ω = some { x with
      positions := x.positions.insert ⟨π, c, v⟩, reports := x.reports ++ [openFill c π v ω] } := by
  simp only [land, hf]

/-- A market fill that lands with its copy. -/
theorem move_of_land {i : OpenMarket} (hl : x.Lands (.cm i.masterPositionId i.slaveAccountId) fresh)
    (h : x.land (.cm i.masterPositionId i.slaveAccountId) fresh i.volume none = some x') :
    Move x (some (.openMarket i)) x' := by
  rcases hl with ⟨q, hm, rfl, hc, hv⟩ | ⟨hf, hno⟩
  · have hfind : x.positions.find q.id = some q := Table.find_of_mem hm
    simp only [land, hfind, if_pos hv] at h
    cases h
    rw [← hc]
    exact .grow i q hm hv hc
  · rw [land_new hf] at h
    cases h
    exact .start i fresh hf hno

/-- An amend finds its order at rest, or does nothing. -/
theorem move_of_amendPending (i : AmendPending) : Move x (some (.amendPending i)) { x with
    orders := x.orders.modify i.orderId (fun q => if q.status = .resting then resize i.volume q else q)
      (fun q => by dsimp; split_ifs <;> rfl) } := by
  by_cases hr : ∃ q ∈ x.orders.rows, q.id = i.orderId ∧ q.status = .resting
  · obtain ⟨q, hm, hid, hs⟩ := hr
    have hmod : x.orders.modify i.orderId
        (fun q => if q.status = .resting then resize i.volume q else q)
        (fun q => by dsimp; split_ifs <;> rfl) =
        x.orders.modify q.id (resize i.volume) fun _ => rfl := by
      have hrows : (x.orders.rows.map fun r => if r.id = i.orderId then
          (if r.status = .resting then resize i.volume r else r) else r) =
          x.orders.rows.map fun r => if r.id = q.id then resize i.volume r else r := by
        refine List.map_congr_left fun r hr => ?_
        rw [← hid]
        split_ifs with h₁ h₂
        · rfl
        · rw [eq_of_order_id hr hm h₁] at h₂
          exact absurd hs h₂
        · rfl
      simp only [Table.modify, Table.update, key_order]
      congr
    rw [hmod]
    exact .resize i q hm hs hid.symm
  · have hself : x.orders.modify i.orderId
        (fun q => if q.status = .resting then resize i.volume q else q)
        (fun q => by dsimp; split_ifs <;> rfl) = x.orders := by
      refine modify_eq_self fun q hm hid => if_neg fun hs => hr ⟨q, hm, hid, hs⟩
    rw [hself]
    exact .idle _ ⟨rfl, by simp, by simp⟩

theorem move_of_execute (h : x.execute fresh i = some x')
    (hl : ∀ j, i = .openMarket j → x.Lands (.cm j.masterPositionId j.slaveAccountId) fresh) :
    Move x (some i) x' := by
  cases i with
  | openMarket i => exact move_of_land (hl i rfl) h
  | closePosition i =>
    simp only [execute] at h
    cases hq : x.positions.find i.positionId with
    | none =>
      rw [hq] at h
      cases h
      refine .idle _ ⟨rfl, ?_, by simp⟩
      rintro j hj q hm hid
      cases hj
      exact absurd hid (Table.find_eq_none.1 hq q hm)
    | some q =>
      rw [hq] at h
      obtain ⟨hm, hid⟩ := Table.find_eq_some hq
      simp only at h
      split_ifs at h with hk
      · cases h
        refine .idle _ ⟨rfl, ?_, by simp⟩
        rintro j hj q' hm' hid'
        cases hj
        rw [eq_of_position_id hm' hm (hid'.trans hid.symm)]
        exact hk
      · cases h
        exact .close i q hm hid.symm (by omega)
  | placePending i =>
    simp only [execute] at h
    split_ifs at h with hf
    cases h
    exact .place i fresh hf
  | amendPending i =>
    cases h
    exact move_of_amendPending i
  | cancelPending i =>
    simp only [execute] at h
    cases hq : x.orders.find i.orderId with
    | none =>
      rw [hq] at h
      cases h
      refine .idle _ ⟨rfl, by simp, ?_⟩
      rintro j hj q hm hid
      cases hj
      exact absurd hid (Table.find_eq_none.1 hq q hm)
    | some q =>
      rw [hq] at h
      obtain ⟨hm, hid⟩ := Table.find_eq_some hq
      simp only at h
      split_ifs at h with hs
      · cases h
        exact .cancel i q hm hs hid.symm
      · cases h
        refine .idle _ ⟨rfl, by simp, ?_⟩
        rintro j hj q' hm' hid'
        cases hj
        rw [eq_of_order_id hm' hm (hid'.trans hid.symm)]
        exact hs
  | amendPositionSLTP i | linkPendingFill i | alert i =>
    cases h
    exact .idle _ ⟨rfl, by simp, by simp⟩

theorem move_of_trigger {ω : ℕ} (h : x.trigger ω fresh = some x') (hf : x.positions.find fresh = none) :
    Move x none x' := by
  simp only [trigger] at h
  split at h
  · cases h
  · next q hq =>
    obtain ⟨hm, rfl⟩ := Table.find_eq_some hq
    split_ifs at h with hc
    rw [land_new (by exact hf)] at h
    cases h
    exact .trigger q fresh hm hc hf

end Move

end Copier
