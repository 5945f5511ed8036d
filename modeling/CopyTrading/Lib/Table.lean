import Mathlib

/-!
# Table — rows with a primary key

`Table α` is a list of rows with pairwise different keys; the proof is a field, so a table with a
duplicate key cannot be built.  `find`, `insert` (refused for a key in use), `modify` (one row, key
kept) and `update` (every row, keys kept), with the two facts later proofs need of each operation:
what `find` sees afterwards, and how a sum over the rows changes.
-/

/-- Rows with a primary key. -/
class Keyed (α : Type) (κ : outParam Type) where
  key : α → κ

open Keyed (key)

/-! ### Sums and maxima over lists -/

section Sums

variable {α β : Type} {M : Type}

theorem sum_map_filter [AddMonoid M] (P : α → Bool) (g : α → M) (l : List α) :
    ((l.filter P).map g).sum = (l.map fun x => if P x then g x else 0).sum := by
  induction l with
  | nil => rfl
  | cons x l ih =>
    cases hx : P x with
    | true | false => simp [hx, ih]

theorem sum_map_filterMap [AddMonoid M] (f : α → Option β) (g : β → M) (l : List α) :
    ((l.filterMap f).map g).sum = (l.map fun x => ((f x).map g).getD 0).sum := by
  induction l with
  | nil => rfl
  | cons x l ih =>
    cases hx : f x with
    | none | some y => simp [hx, ih]

/-- A sum that only one element contributes to. -/
theorem sum_map_single {κ : Type} [AddMonoid M] {key : α → κ} {l : List α} {x : α} {g : α → M}
    (hnd : (l.map key).Nodup) (hx : x ∈ l) (h : ∀ y ∈ l, key y ≠ key x → g y = 0) :
    (l.map g).sum = g x := by
  classical
  have hne : ∀ y, y ≠ x → y ∈ l → g y = 0 := by
    intro y hyx hy
    refine h y hy fun hk => hyx ?_
    exact List.inj_on_of_nodup_map hnd hy hx hk
  rw [List.sum_map_eq_nsmul_single x g hne, List.count_eq_one_of_mem (List.Nodup.of_map _ hnd) hx,
    one_nsmul]

end Sums

theorem foldl_max_le {xs : List ℕ} {n m : ℕ} : xs.foldl max n ≤ m ↔ n ≤ m ∧ ∀ x ∈ xs, x ≤ m := by
  induction xs generalizing n with
  | nil => simp
  | cons x xs ih => rw [List.foldl_cons, ih, max_le_iff, List.forall_mem_cons, and_assoc]

/-- A table: rows with pairwise different primary keys. -/
structure Table (α : Type) {κ : Type} [Keyed α κ] where
  rows : List α
  nodup : (rows.map key).Nodup

namespace Table

open List

variable {α κ : Type} [Keyed α κ] {t u : Table α} {g : α → ℤ} {r a : α} {M : Type} {k : κ}

/-- The table without rows. -/
def empty : Table α := ⟨[], by simp⟩

@[simp] theorem empty_rows : (empty : Table α).rows = [] := rfl

/-- Rewrite every row, keys kept. -/
def update (t : Table α) (f : α → α) (hf : ∀ r, key (f r) = key r) : Table α :=
  ⟨t.rows.map f, by
    have : key ∘ f = key := funext hf
    rw [List.map_map, this]
    exact t.nodup⟩

@[simp] theorem update_rows {f : α → α} {p : ∀ r, key (f r) = key r} (t : Table α) :
    (t.update f p).rows = t.rows.map f := rfl

/-! ### Sums over the rows -/

/-- The sum of `g` over the rows. -/
def sum {M : Type} [AddMonoid M] (t : Table α) (g : α → M) : M := (t.rows.map g).sum

/-- A sum of multisets holds what the rows hold. -/
theorem mem_sum {β : Type} {g : α → Multiset β} {b : β} : b ∈ t.sum g ↔ ∃ r ∈ t.rows, b ∈ g r := by
  unfold sum
  induction t.rows with
  | nil => simp
  | cons a l ih => simp [ih]

theorem sum_neg (t : Table α) (g : α → ℤ) : (t.sum fun r => -g r) = -t.sum g := by
  unfold sum
  induction t.rows with
  | nil => rfl
  | cons a l ih =>
    rw [map_cons, map_cons, sum_cons, sum_cons, ih]
    omega

theorem sum_nonneg (h : ∀ r ∈ t.rows, 0 ≤ g r) : 0 ≤ t.sum g :=
  List.sum_nonneg (by simpa using h)

/-- A positive sum of nonnegative terms is witnessed by a row. -/
theorem exists_of_sum_pos (h : 0 < t.sum g) : ∃ r ∈ t.rows, 0 < g r := by
  by_contra hc
  have hc' : ∀ r ∈ t.rows, g r ≤ 0 := fun r hr => not_lt.1 fun hp => hc ⟨r, hr, hp⟩
  have : t.sum g ≤ 0 := by
    have := sum_le_card_nsmul (t.rows.map g) 0 (by simpa using hc')
    simpa [sum] using this
  omega

theorem le_sum_of_mem (h : ∀ r ∈ t.rows, 0 ≤ g r) (hr : r ∈ t.rows) : g r ≤ t.sum g :=
  single_le_sum (by simpa using h) _ (mem_map_of_mem hr)

theorem sum_congr [AddMonoid M] {g g' : α → M}
    (h : ∀ r ∈ t.rows, g r = g' r) : t.sum g = t.sum g' := by
  unfold sum
  rw [map_congr_left h]

variable [DecidableEq κ]

/-! ### Looking up, inserting and rewriting -/

/-- The row with key `k`. -/
def find (t : Table α) (k : κ) : Option α := t.rows.find? (fun r => key r = k)

/-- Insert a row; a key in use leaves the table as it is. -/
def insert (t : Table α) (r : α) : Table α :=
  if h : key r ∈ t.rows.map key then t else ⟨r :: t.rows, by simpa using ⟨by simpa using h, t.nodup⟩⟩

/-- Rewrite the row with key `k`, if there is one. -/
def modify (t : Table α) (k : κ) (f : α → α) (hf : ∀ r, key (f r) = key r) : Table α :=
  t.update (fun r => if key r = k then f r else r) (fun r => by split_ifs <;> simp [hf])

/-! ### Rows and keys -/

theorem find_eq_some (h : t.find k = some r) : r ∈ t.rows ∧ key r = k := by
  refine ⟨mem_of_find?_eq_some h, ?_⟩
  simpa using find?_some h

theorem find_of_mem (h : r ∈ t.rows) : t.find (key r) = some r := by
  obtain ⟨rows, nd⟩ := t
  unfold find
  dsimp only at h ⊢
  induction rows with
  | nil => simp at h
  | cons a l ih =>
    rw [map_cons, nodup_cons] at nd
    rcases mem_cons.1 h with rfl | h
    · simp
    · have hne : key a ≠ key r := fun e => nd.1 (e ▸ mem_map_of_mem h)
      rw [find?_cons_of_neg (by simpa using hne)]
      exact ih nd.2 h

theorem eq_of_find {a : α} (h : t.find k = some r) (ha : a ∈ t.rows) (hk : key a = k) : a = r :=
  inj_on_of_nodup_map t.nodup ha (find_eq_some h).1 (hk.trans (find_eq_some h).2.symm)

theorem mem_iff_find : r ∈ t.rows ↔ t.find (key r) = some r :=
  ⟨find_of_mem, fun h => (find_eq_some h).1⟩

theorem find_eq_none : t.find k = none ↔ ∀ r ∈ t.rows, key r ≠ k := by
  simp [find]

/-- With distinct keys it does not matter from which end a key is looked for. -/
theorem find?_reverse {l : List α} (h : (l.map key).Nodup) (k : κ) :
    l.reverse.find? (fun r => key r = k) = l.find? (fun r => key r = k) := by
  have h' : (l.reverse.map key).Nodup := by
    rw [map_reverse]
    exact nodup_reverse.2 h
  show find ⟨l.reverse, h'⟩ k = find ⟨l, h⟩ k
  cases hf : find (⟨l, h⟩ : Table α) k with
  | none => exact find_eq_none.2 fun r hr => find_eq_none.1 hf r (mem_reverse.1 hr)
  | some r =>
    obtain ⟨hm, rfl⟩ := find_eq_some hf
    exact find_of_mem (mem_reverse.2 hm)

@[simp] theorem find_empty (k : κ) : (empty : Table α).find k = none := rfl

omit [DecidableEq κ] in
/-- A sum that only one row contributes to. -/
theorem sum_eq_single [AddMonoid M] {g : α → M} (hr : r ∈ t.rows)
    (h : ∀ a ∈ t.rows, key a ≠ key r → g a = 0) : t.sum g = g r := sum_map_single t.nodup hr h

/-! ### Inserting -/

theorem insert_rows (h : t.find (key r) = none) : (t.insert r).rows = r :: t.rows := by
  have hk : key r ∉ t.rows.map key := by
    intro hm
    obtain ⟨a, ha, e⟩ := mem_map.1 hm
    exact find_eq_none.1 h a ha e
  simp [insert, hk]

theorem mem_insert (h : t.find (key r) = none) : a ∈ (t.insert r).rows ↔ a = r ∨ a ∈ t.rows := by
  rw [insert_rows h, mem_cons]

theorem mem_insert_of_mem (h : a ∈ t.rows) : a ∈ (t.insert r).rows := by
  unfold insert
  split_ifs
  · exact h
  · exact mem_cons_of_mem _ h

theorem mem_of_mem_insert (h : a ∈ (t.insert r).rows) : a = r ∨ a ∈ t.rows := by
  unfold insert at h
  split_ifs at h
  · exact .inr h
  · exact mem_cons.1 h

theorem find_insert_self (h : t.find (key r) = none) : (t.insert r).find (key r) = some r := by
  rw [find, insert_rows h]
  simp

theorem find_insert_ne (h : key r ≠ k) : (t.insert r).find k = t.find k := by
  unfold insert
  split_ifs
  · rfl
  · simp [find, h]

/-- What `find` sees after an insert, as a function of what it saw before. -/
theorem find_insert (t : Table α) (r : α) (k : κ) :
    (t.insert r).find k = if key r = k then some ((t.find k).getD r) else t.find k := by
  split_ifs with h
  · subst h
    cases hf : t.find (key r) with
    | none => rw [find_insert_self hf]; rfl
    | some a =>
      have hk : key r ∈ t.rows.map key := by
        obtain ⟨hm, hk⟩ := find_eq_some hf
        exact hk ▸ mem_map_of_mem hm
      rw [insert, dif_pos hk, hf]
      rfl
  · exact find_insert_ne h

theorem sum_insert [AddMonoid M] (g : α → M)
    (h : t.find (key r) = none) : (t.insert r).sum g = g r + t.sum g := by
  simp [sum, insert_rows h]

/-! ### Rewriting rows -/

section Rewrite

variable {f : α → α} {p : ∀ r, key (f r) = key r} {t : Table α} {k : κ} {r : α} {M : Type}

@[simp] theorem modify_rows (t : Table α) (k : κ) :
    (t.modify k f p).rows = t.rows.map (fun r => if key r = k then f r else r) := rfl

theorem find_update (t : Table α) (k : κ) : (t.update f p).find k = (t.find k).map f := by
  simp only [find, update_rows, find?_map]
  congr 2
  funext r
  simp [p]

theorem find_modify_self (h : t.find k = some r) : (t.modify k f p).find k = some (f r) := by
  rw [modify, find_update, h]
  simp [(find_eq_some h).2]

theorem find_modify_ne {k' : κ} (h : k ≠ k') : (t.modify k f p).find k' = t.find k' := by
  rw [modify, find_update]
  cases hr : t.find k' with
  | none => rfl
  | some r =>
    have : key r ≠ k := by rw [(find_eq_some hr).2]; exact fun e => h e.symm
    simp [this]

theorem find_modify_none {k' : κ} (h : t.find k' = none) : (t.modify k f p).find k' = none := by
  rw [modify, find_update, h]
  rfl

/-- What `find` sees after a rewrite, as a function of what it saw before. -/
theorem find_modify (t : Table α) (k k' : κ) :
    (t.modify k f p).find k' = if k = k' then (t.find k').map f else t.find k' := by
  split_ifs with h
  · subst h
    cases hr : t.find k with
    | none => exact find_modify_none hr
    | some r => exact find_modify_self hr
  · exact find_modify_ne h

theorem mem_modify {a : α} (h : t.find k = some r) :
    a ∈ (t.modify k f p).rows ↔ a = f r ∨ (a ∈ t.rows ∧ key a ≠ k) := by
  obtain ⟨hm, hk⟩ := find_eq_some h
  rw [modify_rows, mem_map]
  constructor
  · rintro ⟨b, hb, rfl⟩
    by_cases hbk : key b = k
    · obtain rfl := eq_of_find h hb hbk
      simp [hbk]
    · simp [hbk, hb]
  · rintro (rfl | ⟨ha, hak⟩)
    · exact ⟨r, hm, by simp [hk]⟩
    · exact ⟨a, ha, by simp [hak]⟩

theorem filter_modify (f : α → α) (p : ∀ r, key (f r) = key r) {P : α → Bool} (h : ∀ r, P (f r) = P r) :
    (t.modify k f p).rows.filter P = (t.rows.filter P).map fun r => if key r = k then f r else r := by
  rw [modify_rows, List.filter_map]
  refine congrArg _ (filter_congr fun r _ => ?_)
  dsimp only [Function.comp_apply]
  split_ifs
  · exact h r
  · rfl

/-- The rewritten row leaves the sum and its new version enters it. -/
theorem sum_modify [AddCommMonoid M] (g : α → M)
    (h : t.find k = some r) : (t.modify k f p).sum g + g r = t.sum g + g (f r) := by
  obtain ⟨rows, nd⟩ := t
  simp only [sum, modify_rows]
  unfold find at h
  dsimp only at h
  induction rows with
  | nil => simp at h
  | cons a l ih =>
    rw [map_cons, nodup_cons] at nd
    by_cases hak : key a = k
    · rw [find?_cons_of_pos (by simpa using hak)] at h
      cases h
      have hrest : l.map (fun r => if key r = k then f r else r) = l := by
        refine (map_congr_left fun b hb => ?_).trans (map_id l)
        have : key b ≠ k := fun e => nd.1 (by rw [hak, ← e]; exact mem_map_of_mem hb)
        simp [this]
      simp only [map_cons, hrest, hak, if_true, sum_cons]
      abel
    · rw [find?_cons_of_neg (by simpa using hak)] at h
      have := ih nd.2 h
      simp only [map_cons, hak, if_false, sum_cons]
      rw [add_assoc, this]
      abel

theorem sum_modify_zero [AddCommMonoid M] {g : α → M} (h : t.find k = some r) (h0 : g r = 0) :
    (t.modify k f p).sum g = g (f r) + t.sum g := by
  have hsum := sum_modify (f := f) (p := p) g h
  rw [h0, add_zero] at hsum
  rw [hsum, add_comm]

theorem sum_modify_to_zero [AddCommMonoid M] {g : α → M} (h : t.find k = some r) (h0 : g (f r) = 0) :
    (t.modify k f p).sum g + g r = t.sum g := by
  rw [sum_modify g h, h0, add_zero]

theorem sum_modify_le {g : α → ℤ} (h : t.find k = some r) (hg : g (f r) ≤ g r) :
    (t.modify k f p).sum g ≤ t.sum g := by
  have hsum := sum_modify (f := f) (p := p) g h
  omega

theorem exists_find_modify {P : α → Prop} {r₀ : α} {k' : κ} (h₀ : t.find k = some r₀)
    (h : t.find k' = some r) (hf : r = r₀ → P (f r)) (hr : P r) :
    ∃ r', (t.modify k f p).find k' = some r' ∧ P r' := by
  by_cases hk : k = k'
  · subst hk
    exact ⟨f r, find_modify_self h, hf (Option.some.inj (h.symm.trans h₀))⟩
  · exact ⟨r, (find_modify_ne hk).trans h, hr⟩

theorem sum_modify_of_eq [AddCommMonoid M] [IsCancelAdd M]
    {g : α → M} (h : t.find k = some r) (hg : g (f r) = g r) : (t.modify k f p).sum g = t.sum g := by
  have : (t.modify k f p).sum g + g r = t.sum g + g (f r) := sum_modify g h
  rw [hg] at this
  exact add_right_cancel this

end Rewrite

/-! ### Deleting rows -/

/-- The rows that pass `P`. -/
def filter (t : Table α) (P : α → Bool) : Table α :=
  ⟨t.rows.filter P, t.nodup.sublist (List.filter_sublist.map key)⟩

theorem find_filter (t : Table α) (P : α → Bool) (k : κ) : (t.filter P).find k = (t.find k).filter P := by
  cases hf : t.find k with
  | none =>
    rw [Option.filter_none, find_eq_none]
    intro r hr
    exact find_eq_none.1 hf r (mem_of_mem_filter hr)
  | some r =>
    obtain ⟨hr, rfl⟩ := find_eq_some hf
    rw [Option.filter_some]
    split_ifs with hP
    · exact find_of_mem (t := t.filter P) (mem_filter.2 ⟨hr, hP⟩)
    · refine find_eq_none.2 fun a ha hk => hP ?_
      obtain ⟨ha, hPa⟩ := mem_filter.1 ha
      rwa [List.inj_on_of_nodup_map t.nodup ha hr hk] at hPa

/-- Delete the rows with the given keys. -/
def delete (t : Table α) (ks : List κ) : Table α := t.filter fun r => key r ∉ ks

theorem delete_nil (t : Table α) : t.delete [] = t := by
  have hrows : (t.delete []).rows = t.rows := filter_eq_self.2 fun _ _ => by simp
  cases t
  exact (Table.mk.injEq ..).mpr hrows

theorem find_delete (t : Table α) (ks : List κ) (k : κ) :
    (t.delete ks).find k = if k ∈ ks then none else t.find k := by
  rw [delete, find_filter]
  cases hf : t.find k with
  | none => simp
  | some r => simp [Option.filter_some, (find_eq_some hf).2, ite_not]

/-- Make `o` what the key `k` finds. -/
def put (t : Table α) (k : κ) (o : Option α) : Table α :=
  match o with
  | none => t.delete [k]
  | some r => (t.delete [k]).insert r

theorem find_put (t : Table α) {o : Option α} (h : ∀ r, o = some r → key r = k) (k' : κ) :
    (t.put k o).find k' = if k' = k then o else t.find k' := by
  cases o with
  | none => simp [put, find_delete]
  | some r =>
    obtain rfl := h r rfl
    rw [put, find_insert, find_delete]
    by_cases hk : key r = k'
    · simp [hk]
    · simp [hk, Ne.symm hk]

/-- The order of the rows does not matter to `find` … -/
theorem find_of_perm (h : t.rows.Perm u.rows) (k : κ) : t.find k = u.find k := by
  cases hf : t.find k with
  | none =>
    refine (find_eq_none.2 fun r hr => ?_).symm
    exact find_eq_none.1 hf r (h.mem_iff.2 hr)
  | some r =>
    obtain ⟨hr, rfl⟩ := find_eq_some hf
    exact (find_of_mem (h.mem_iff.1 hr)).symm

/-- … and tables that answer alike have the same rows, up to their order. -/
theorem perm_of_find (h : ∀ k, t.find k = u.find k) : t.rows.Perm u.rows := by
  refine (perm_ext_iff_of_nodup t.nodup.of_map u.nodup.of_map).2 fun r => ?_
  rw [mem_iff_find, mem_iff_find, h]

/-- A sum over the rows is one over the keys. -/
theorem sum_eq_find [AddCommMonoid M] (t : Table α) (g : α → M) {ks : Finset κ}
    (h : ∀ r ∈ t.rows, key r ∈ ks) : t.sum g = ∑ k ∈ ks, (t.find k).elim 0 g := by
  obtain ⟨rows, nd⟩ := t
  show (rows.map g).sum = ∑ k ∈ ks, (rows.find? fun r => key r = k).elim 0 g
  dsimp only at h
  induction rows with
  | nil => simp
  | cons a l ih =>
    rw [map_cons, nodup_cons] at nd
    have hhead : ∀ k, ((a :: l).find? fun r => key r = k).elim 0 g =
        (if key a = k then g a else 0) + (l.find? fun r => key r = k).elim 0 g := by
      intro k
      by_cases hk : key a = k
      · -- no other row has the key
        have hnone : l.find? (fun r => key r = k) = none := by
          refine find?_eq_none.2 fun r hr hrk => nd.1 ?_
          rw [hk, ← of_decide_eq_true hrk]
          exact mem_map_of_mem hr
        rw [find?_cons_of_pos (by simpa using hk), if_pos hk, hnone]
        simp
      · rw [find?_cons_of_neg (by simpa using hk), if_neg hk, zero_add]
    rw [map_cons, sum_cons, ih nd.2 fun r hr => h r (mem_cons_of_mem a hr),
      Finset.sum_congr rfl fun k _ => hhead k, Finset.sum_add_distrib, Finset.sum_ite_eq,
      if_pos (h a mem_cons_self)]

/-- Tables whose rows contribute alike have the same sum. -/
theorem sum_congr_find [AddCommMonoid M] {g g' : α → M}
    (h : ∀ k, (t.find k).elim 0 g = (u.find k).elim 0 g') : t.sum g = u.sum g' := by
  have ht : ∀ r ∈ t.rows, key r ∈ (t.rows.map key ++ u.rows.map key).toFinset := fun r hr =>
    mem_toFinset.2 (mem_append_left _ (mem_map_of_mem hr))
  have hu : ∀ r ∈ u.rows, key r ∈ (t.rows.map key ++ u.rows.map key).toFinset := fun r hr =>
    mem_toFinset.2 (mem_append_right _ (mem_map_of_mem hr))
  rw [t.sum_eq_find g ht, u.sum_eq_find g' hu]
  exact Finset.sum_congr rfl fun k _ => h k

end Table
