import CopyTrading.Copier.System

/-!
# Copier.Dispatched — what a dispatch does to the mappings

One specification of `dispatch`, whatever the intents: rows keep every column but the link to the
master's position, new rows are untouched, everything that is sent has its row, and a pending order
is placed at most once.  Later proofs use this and never unfold `dispatch`.
-/

namespace Copier

open List

variable {i : SlaveIntent}

/-- The account of a copy. -/
def ClientOrderId.account : ClientOrderId → Option ℕ
  | .cm _ a => some a
  | .co _ a => some a
  | .other _ => none

/-- The columns that tell whose copy a row is. -/
def Ident : ClientOrderId → Mapping → Prop
  | .cm p a, m => m.slaveAccountId = a ∧ m.masterPositionId = some p ∧ m.masterOrderId = none
  | .co o a, m => m.slaveAccountId = a ∧ m.masterOrderId = some o
  | .other _, _ => False

/-- Nothing has been reported for the row. -/
def Mapping.Untouched (m : Mapping) : Prop :=
  m.status = .pending ∧ m.held = none ∧ m.slaveOrderId = none

/-- The client order id of a pending order a request places. -/
def SlaveIntent.places : SlaveIntent → Option ClientOrderId
  | .placePending i => some (.co i.masterOrderId i.slaveAccountId)
  | _ => none

/-- A dispatch of `is`: rows keep every column but the link, new rows are untouched, and what is sent
has its row; an order is placed only once. -/
structure Dispatched (is : List SlaveIntent) (s s' : Mappings) (sent : List SlaveIntent) : Prop where
  sent_sub : sent ⊆ is
  keeps : ∀ c m, s.find c = some m → ∃ q, s'.find c = some { m with masterPositionId := q } ∧
    (q = m.masterPositionId ∨ ∃ i, .linkPendingFill i ∈ is ∧ q = some i.masterPositionId ∧
      m.masterOrderId = some i.masterOrderId)
  new : ∀ c m, s.find c = none → s'.find c = some m → Ident c m ∧ m.Untouched ∧
    ∃ i ∈ sent, clientOrderIdFor i = some c
  unlinked : ∀ c m, s.find c = none → s'.find c = some m → m.masterOrderId ≠ none →
    m.masterPositionId = none ∨ ∃ i, .linkPendingFill i ∈ is
  named : ∀ i ∈ sent, ∀ c, clientOrderIdFor i = some c → (s'.find c).isSome
  places : ∀ i ∈ sent, ∀ c, i.places = some c → s.find c = none
  nodup : (sent.filterMap SlaveIntent.places).Nodup

namespace Dispatched

variable {is : List SlaveIntent} {s s' s'' : Mappings} {sent sent' : List SlaveIntent}

theorem refl (is : List SlaveIntent) (s : Mappings) : Dispatched is s s [] where
  sent_sub := by simp
  keeps c m h := ⟨m.masterPositionId, h, .inl rfl⟩
  new c m h h' := by simp [h] at h'
  unlinked c m h h' := by simp [h] at h'
  named := by simp
  places := by simp
  nodup := by simp

theorem find_none (h : Dispatched is s s' sent) {c : ClientOrderId} (hn : s'.find c = none) :
    s.find c = none := by
  cases hc : s.find c with
  | none => rfl
  | some m =>
    obtain ⟨q, hq, -⟩ := h.keeps c m hc
    rw [hn] at hq
    simp at hq

theorem mono (h : Dispatched is s s' sent) (js : List SlaveIntent) (hs : is ⊆ js) :
    Dispatched js s s' sent :=
  { h with
    sent_sub := Subset.trans h.sent_sub hs
    keeps := fun c m hm => by
      obtain ⟨q, hq, hl⟩ := h.keeps c m hm
      refine ⟨q, hq, hl.imp_right ?_⟩
      rintro ⟨i, hi, hx⟩
      exact ⟨i, hs hi, hx⟩
    unlinked := fun c m hn hm ho => by
      refine (h.unlinked c m hn hm ho).imp_right ?_
      rintro ⟨i, hi⟩
      exact ⟨i, hs hi⟩ }

theorem trans (h : Dispatched is s s' sent) (h' : Dispatched is s' s'' sent') :
    Dispatched is s s'' (sent ++ sent') where
  sent_sub := append_subset.2 ⟨h.sent_sub, h'.sent_sub⟩
  keeps c m hm := by
    obtain ⟨q, hq, hl⟩ := h.keeps c m hm
    obtain ⟨q', hq', hl'⟩ := h'.keeps c _ hq
    refine ⟨q', hq', ?_⟩
    rcases hl' with rfl | hl'
    · exact hl
    · exact .inr hl'
  new c m hn hm := by
    cases hc : s'.find c with
    | none =>
      obtain ⟨hid, hun, i, hi, hic⟩ := h'.new c m hc hm
      exact ⟨hid, hun, i, mem_append_right _ hi, hic⟩
    | some m' =>
      obtain ⟨hid, hun, i, hi, hic⟩ := h.new c m' hn hc
      obtain ⟨q, hq, hl⟩ := h'.keeps c m' hc
      cases hq.symm.trans hm
      refine ⟨?_, hun, i, mem_append_left _ hi, hic⟩
      cases c with
      | cm p a =>
        -- a market copy's row has no order to link
        obtain ⟨ha, hp, ho⟩ := hid
        rcases hl with rfl | ⟨i, -, -, hi⟩
        · exact ⟨ha, hp, ho⟩
        · rw [ho] at hi
          simp at hi
      | co o a | other x => exact hid
  unlinked c m hn hm ho := by
    cases hc : s'.find c with
    | none => exact h'.unlinked c m hc hm ho
    | some m' =>
      obtain ⟨q, hq, hl⟩ := h'.keeps c m' hc
      cases hq.symm.trans hm
      rcases hl with rfl | ⟨i, hi, -⟩
      · exact h.unlinked c m' hn hc ho
      · exact .inr ⟨i, hi⟩
  named i hi c hc := by
    rcases mem_append.1 hi with hi | hi
    · obtain ⟨m, hm⟩ := Option.isSome_iff_exists.1 (h.named i hi c hc)
      obtain ⟨q, hq, -⟩ := h'.keeps c m hm
      rw [hq]
      rfl
    · exact h'.named i hi c hc
  places i hi c hc := by
    rcases mem_append.1 hi with hi | hi
    · exact h.places i hi c hc
    · exact h.find_none (h'.places i hi c hc)
  nodup := by
    rw [filterMap_append, nodup_append]
    refine ⟨h.nodup, h'.nodup, ?_⟩
    intro c hc c' hc' he
    subst he
    obtain ⟨i, hi, hic⟩ := mem_filterMap.1 hc
    obtain ⟨j, hj, hjc⟩ := mem_filterMap.1 hc'
    have hfor : clientOrderIdFor i = some c := by
      cases i with
      | placePending x => exact hic
      | _ => simp [SlaveIntent.places] at hic
    have := h.named i hi c hfor
    rw [h'.places j hj c hjc] at this
    simp at this

end Dispatched

theorem clientOrderIdFor_of_places {c : ClientOrderId} (h : i.places = some c) :
    clientOrderIdFor i = some c := by
  cases i with
  | placePending x => exact h
  | _ => simp [SlaveIntent.places] at h

/-- An intent that creates no row is sent as it is. -/
theorem dispatched_plain (s : Mappings) (hc : clientOrderIdFor i = none) :
    Dispatched [i] s s [i] where
  sent_sub := Subset.refl _
  keeps c m h := ⟨m.masterPositionId, h, .inl rfl⟩
  new c m h h' := by simp [h] at h'
  unlinked c m h h' := by simp [h] at h'
  named j hj c hjc := by
    rw [mem_singleton.1 hj, hc] at hjc
    simp at hjc
  places j hj c hjc := by
    have := clientOrderIdFor_of_places hjc
    rw [mem_singleton.1 hj, hc] at this
    simp at this
  nodup := by cases h : i.places <;> simp [h]

/-- A row is created for the request. -/
theorem dispatched_create {s : Mappings} {c : ClientOrderId} {a : ℕ} {p o : Option ℕ}
    (hc : clientOrderIdFor i = some c) (hid : Ident c (pendingRow c a p o)) (ho : o ≠ none → p = none)
    (hplaces : ∀ c, i.places = some c → s.find c = none) :
    Dispatched [i] s (s.insert (pendingRow c a p o)) [i] where
  sent_sub := Subset.refl _
  keeps c m hm := by
    refine ⟨m.masterPositionId, ?_, .inl rfl⟩
    rw [Table.find_insert, hm]
    split_ifs <;> rfl
  new c m hn hm := by
    rw [Table.find_insert, hn] at hm
    split_ifs at hm with hk
    cases hm
    subst hk
    exact ⟨hid, ⟨rfl, rfl, rfl⟩, i, mem_singleton_self _, hc⟩
  unlinked c m hn hm hm' := by
    rw [Table.find_insert, hn] at hm
    split_ifs at hm
    cases hm
    exact .inl (ho hm')
  named j hj c hjc := by
    rw [mem_singleton.1 hj, hc] at hjc
    cases hjc
    rw [Table.find_insert]
    simp [pendingRow]
  places j hj c hjc := hplaces c (mem_singleton.1 hj ▸ hjc)
  nodup := by cases h : i.places <;> simp [h]

theorem dispatched_link (l : LinkPendingFill) (s : Mappings) : Dispatched [.linkPendingFill l] s
      ((linkPendingFill l.masterOrderId l.slaveAccountId l.masterPositionId s).getD s) [] where
  sent_sub := by simp
  keeps c m h := by
    rw [linkPendingFill, find_updateFound, h]
    simp only [Option.map_some]
    split_ifs with hp
    · simp only [Bool.and_eq_true, decide_eq_true_eq] at hp
      exact ⟨some l.masterPositionId, rfl, .inr ⟨l, by simp, rfl, hp.1.1⟩⟩
    · exact ⟨m.masterPositionId, rfl, .inl rfl⟩
  new c m h h' := by
    rw [linkPendingFill, find_updateFound, h] at h'
    simp at h'
  unlinked c m h h' ho := .inr ⟨l, mem_singleton_self _⟩
  named := by simp
  places := by simp
  nodup := by simp

theorem dispatched_one (i : SlaveIntent) (s : Mappings) :
    Dispatched [i] s (dispatchOne .live i s).1 (dispatchOne .live i s).2 := by
  cases i with
  | openMarket i => exact dispatched_create rfl ⟨rfl, rfl, rfl⟩ (fun h => absurd rfl h) nofun
  | placePending i =>
    simp only [dispatchOne, Org.live, createMapping, createOrderMapping]
    by_cases h : (s.find (.co i.masterOrderId i.slaveAccountId)).isSome
    · simp only [h, if_true]
      exact .refl _ s
    · simp only [h]
      refine dispatched_create rfl ⟨rfl, rfl⟩ (fun _ => rfl) fun c hc => ?_
      cases hc
      simpa using h
  | linkPendingFill l => exact dispatched_link l s
  | alert x => exact .refl _ s
  | closePosition x | amendPositionSLTP x | amendPending x | cancelPending x =>
    exact dispatched_plain s rfl

theorem dispatched (is : List SlaveIntent) (s : Mappings) :
    Dispatched is s (dispatch .live is s).1 (dispatch .live is s).2 := by
  induction is generalizing s with
  | nil => exact .refl _ s
  | cons i is ih =>
    have h1 := (dispatched_one i s).mono (i :: is) (by simp)
    have h2 := (ih (dispatchOne .live i s).1).mono (i :: is) (by simp)
    exact h1.trans h2

/-- Whatever the gates are: the mappings of a dispatch come by links and new rows. -/
theorem dispatch_rel {R : Mappings → Mappings → Prop} (hr : ∀ s, R s s)
    (ht : ∀ {s s' s''}, R s s' → R s' s'' → R s s'') (hlink : ∀ (l : LinkPendingFill) s,
      R s ((linkPendingFill l.masterOrderId l.slaveAccountId l.masterPositionId s).getD s))
    (hnew : ∀ {c a} p o s, c.account = some a → R s (s.insert (pendingRow c a p o))) (gates : Org)
    (is : List SlaveIntent) (s : Mappings) : R s (dispatch gates is s).1 := by
  induction is generalizing s with
  | nil => exact hr s
  | cons i is ih =>
    refine ht ?_ (ih _)
    unfold dispatchOne
    split
    · exact hr s
    · exact hlink _ s
    · by_cases hen : gates.copyingEnabled
      · rw [if_pos hen]
        split
        · next s' hs =>
          cases i with
          | openMarket i =>
            cases hs
            exact hnew _ _ s rfl
          | placePending i =>
            simp only [createMapping, createOrderMapping] at hs
            split_ifs at hs
            cases hs
            exact hnew _ _ s rfl
          | _ =>
            cases hs
            exact hr s
        · exact hr s
      · rw [if_neg hen]
        exact hr s

/-- Requests that no row can hold back. -/
def SlaveIntent.sends : SlaveIntent → Bool
  | .openMarket _ => true
  | .closePosition _ => true
  | .amendPositionSLTP _ => true
  | .amendPending _ => true
  | .cancelPending _ => true
  | .placePending _ => false
  | .linkPendingFill _ => false
  | .alert _ => false

theorem dispatchOne_sends (s : Mappings) (hi : i.sends) : (dispatchOne .live i s).2 = [i] := by
  cases i with
  | placePending x | linkPendingFill x | alert x => simp [SlaveIntent.sends] at hi
  | _ => rfl

theorem mem_dispatch {is : List SlaveIntent} (s : Mappings) (h : i ∈ is)
    (hi : i.sends) : i ∈ (dispatch .live is s).2 := by
  induction is generalizing s with
  | nil => simp at h
  | cons j is ih =>
    show i ∈ (dispatchOne .live j s).2 ++ (dispatch .live is (dispatchOne .live j s).1).2
    rcases mem_cons.1 h with rfl | h
    · rw [dispatchOne_sends s hi]
      exact mem_append_left _ (mem_singleton_self i)
    · exact mem_append_right _ (ih _ h)

end Copier
