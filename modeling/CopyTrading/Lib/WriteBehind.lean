import CopyTrading.Lib.Table

/-!
# WriteBehind — a store in memory and the table behind it

A store marks what its table does not have yet: the keys to upsert and the keys to delete.  `flush` writes
the marked rows, upserts first; an upsert of a key in use only refreshes some columns of its row.  `Behind`
is what the marks promise of one key.  Every change that marks what it does keeps the promise, and a flush
redeems it: the table then answers as the store does.
-/

open Keyed (key)

namespace WriteBehind

open List

variable {α κ : Type} [Keyed α κ]

/-- What is in memory, by key, and the marks. -/
structure Store (α κ : Type) [Keyed α κ] where
  find : κ → Option α
  key_find : ∀ k v, find k = some v → key v = k
  dirty : List κ
  deleted : List κ

/-- `ON CONFLICT … DO UPDATE`: what becomes of a row in use, and that its key is kept. -/
structure Refresh (α : Type) {κ : Type} [Keyed α κ] where
  apply : α → α → α
  key_apply : ∀ r v, key (apply r v) = key r
  apply_self : ∀ v, apply v v = v

variable [DecidableEq κ] (f : Refresh α)

/-- Insert the row; refresh the one that has its key. -/
def upsert (t : Table α) (v : α) : Table α :=
  (t.modify (key v) (fun r => f.apply r v) fun r => f.key_apply r v).insert v

/-- The upserts, then the deletes. -/
def flush (s : Store α κ) (t : Table α) : Table α :=
  ((s.dirty.filterMap s.find).foldl (upsert f) t).delete s.deleted

/-- What the marks promise of `k`. -/
structure Behind (s : Store α κ) (t : Table α) (k : κ) : Prop where
  deleted : k ∈ s.deleted → s.find k = none
  dirty : k ∈ s.dirty → ∃ v, s.find k = some v
  clean : k ∉ s.dirty → k ∉ s.deleted → t.find k = s.find k
  refresh : ∀ r v, t.find k = some r → s.find k = some v → f.apply r v = v

/-- What a change of the store may do to `k`, and the mark it leaves. -/
inductive Touched (s s' : Store α κ) (k : κ) : Prop where
  | same : s'.find k = s.find k → (k ∈ s'.dirty ↔ k ∈ s.dirty) → (k ∈ s'.deleted ↔ k ∈ s.deleted) →
    Touched s s' k
  | opened (v : α) : s.find k = none → k ∉ s.deleted → s'.find k = some v → k ∈ s'.dirty →
    k ∉ s'.deleted → Touched s s' k
  | changed (v w : α) : s.find k = some v → s'.find k = some w → k ∈ s'.dirty →
    (k ∈ s'.deleted ↔ k ∈ s.deleted) → (∀ r, f.apply r v = v → f.apply r w = w) → Touched s s' k
  | closed (v : α) : s.find k = some v → s'.find k = none → k ∉ s'.dirty → k ∈ s'.deleted →
    Touched s s' k

section Step

variable {f} {s s' : Store α κ} {t : Table α} {k : κ} {vs : List α}

/-- **Marked changes keep the promise.** -/
theorem Touched.behind (h : Touched f s s' k) (hb : Behind f s t k) : Behind f s' t k := by
  cases h with
  | same hf hd hx =>
    constructor
    · rw [hf, hx]
      exact hb.deleted
    · rw [hf, hd]
      exact hb.dirty
    · rw [hf, hd, hx]
      exact hb.clean
    · rw [hf]
      exact hb.refresh
  | opened v hn hx hf hd hx' =>
    have hnd : k ∉ s.dirty := by
      intro hm
      obtain ⟨w, hw⟩ := hb.dirty hm
      rw [hn] at hw
      cases hw
    -- a key never used before is not in the table
    have ht : t.find k = none := (hb.clean hnd hx).trans hn
    refine ⟨fun h => absurd h hx', fun _ => ⟨v, hf⟩, fun h => absurd hd h, fun r w hr => ?_⟩
    rw [ht] at hr
    cases hr
  | changed v w hv hw hd hx hfix =>
    have hnx : k ∉ s.deleted := by
      intro hm
      rw [hb.deleted hm] at hv
      cases hv
    refine ⟨fun h => absurd (hx.1 h) hnx, fun _ => ⟨w, hw⟩, fun h => absurd hd h, fun r u hr hu => ?_⟩
    cases hw.symm.trans hu
    exact hfix r (hb.refresh r v hr hv)
  | closed v hv hn hd hx =>
    refine ⟨fun _ => hn, fun h => absurd h hd, fun _ h => absurd hx h, fun r w _ hw => ?_⟩
    rw [hn] at hw
    cases hw

/-! ### Flushing -/

theorem find_upsert (t : Table α) (v : α) (k : κ) :
    (upsert f t v).find k = if key v = k then some (((t.find k).map fun r => f.apply r v).getD v)
      else t.find k := by
  rw [upsert, Table.find_insert, Table.find_modify]
  split_ifs <;> rfl

theorem find_upserts_of_not_mem (h : ∀ v ∈ vs, key v ≠ k) :
    (vs.foldl (upsert f) t).find k = t.find k := by
  induction vs generalizing t with
  | nil => rfl
  | cons v vs ih =>
    rw [foldl_cons, ih fun w hw => h w (mem_cons_of_mem v hw), find_upsert,
      if_neg (h v mem_cons_self)]

/-- A row whose fixed columns are the table's is written as it is. -/
theorem find_upserts_of_mem {v : α} (hv : v ∈ vs) (hk : key v = k)
    (hone : ∀ w ∈ vs, key w = k → w = v) (hfix : ∀ r, t.find k = some r → f.apply r v = v) :
    (vs.foldl (upsert f) t).find k = some v := by
  induction vs generalizing t with
  | nil => cases hv
  | cons w vs ih =>
    rw [foldl_cons]
    have hone' : ∀ u ∈ vs, key u = k → u = v := fun u hu => hone u (mem_cons_of_mem w hu)
    by_cases hw : key w = k
    · obtain rfl := hone w mem_cons_self hw
      have hwritten : (upsert f t w).find k = some w := by
        rw [find_upsert, if_pos hw]
        cases hr : t.find k with
        | none => rfl
        | some r => exact congrArg some (hfix r hr)
      by_cases hmem : w ∈ vs
      · refine ih hmem hone' fun r hr => ?_
        cases hwritten.symm.trans hr
        exact f.apply_self w
      · rw [find_upserts_of_not_mem, hwritten]
        intro u hu huk
        exact hmem (hone' u hu huk ▸ hu)
    · have hvs : v ∈ vs := by
        rcases mem_cons.1 hv with rfl | hvs
        · exact absurd hk hw
        · exact hvs
      refine ih hvs hone' ?_
      rw [find_upsert, if_neg hw]
      exact hfix

/-- **A flush writes what the store holds.** -/
theorem find_flush (h : Behind f s t k) : (flush f s t).find k = s.find k := by
  rw [flush, Table.find_delete]
  split_ifs with hx
  · exact (h.deleted hx).symm
  · by_cases hd : k ∈ s.dirty
    · obtain ⟨v, hv⟩ := h.dirty hd
      rw [hv]
      refine find_upserts_of_mem (mem_filterMap.2 ⟨k, hd, hv⟩) (s.key_find k v hv) ?_
        fun r hr => h.refresh r v hr hv
      intro w hw hwk
      obtain ⟨k', -, hk'⟩ := mem_filterMap.1 hw
      obtain rfl : k' = k := (s.key_find k' w hk').symm.trans hwk
      exact Option.some.inj (hk'.symm.trans hv)
    · rw [find_upserts_of_not_mem, h.clean hd hx]
      intro w hw hwk
      obtain ⟨k', hk', hfind⟩ := mem_filterMap.1 hw
      obtain rfl : k' = k := (s.key_find k' w hfind).symm.trans hwk
      exact hd hk'

/-- A store without marks whose table answers as it does. -/
theorem behind_of_eq (hd : s.dirty = []) (hx : s.deleted = []) (h : t.find k = s.find k) :
    Behind f s t k := by
  refine ⟨?_, ?_, fun _ _ => h, fun r v hr hv => ?_⟩
  · rw [hx]
    exact fun hm => absurd hm not_mem_nil
  · rw [hd]
    exact fun hm => absurd hm not_mem_nil
  · cases hr.symm.trans (h.trans hv)
    exact f.apply_self r

end Step

end WriteBehind
