import Mathlib

/-!
# Fifo — taking an amount out of a queue, oldest first

Every entry of a queue holds an amount.  `consume` takes `n` out of the queue from its head on: an
entry is drained of what it holds until `n` has been taken.  `drain` says what becomes of an entry,
`none` for one that leaves the queue; entries that hold nothing stay as they are.
-/

namespace Fifo

open List

variable {α κ : Type} (amount : α → ℕ) (drain : α → ℕ → Option α) {x : α} {key : α → κ} {k : ℕ}

/-- The queue afterwards, and the entries taken from (as they were) with what was taken. -/
def consume : List α → ℕ → List α × List (α × ℕ)
  | [], _ => ([], [])
  | x :: xs, n =>
    let k := min (amount x) n
    let r := consume xs (n - k)
    if k = 0 then (x :: r.1, r.2) else ((drain x k).toList ++ r.1, (x, k) :: r.2)

theorem consume_cons (x : α) (xs : List α) (n : ℕ) :
    (min (amount x) n = 0 ∧ consume amount drain (x :: xs) n =
      (x :: (consume amount drain xs n).1, (consume amount drain xs n).2)) ∨
    (min (amount x) n ≠ 0 ∧ consume amount drain (x :: xs) n =
      ((drain x (min (amount x) n)).toList ++ (consume amount drain xs (n - min (amount x) n)).1,
        (x, min (amount x) n) :: (consume amount drain xs (n - min (amount x) n)).2)) := by
  rw [consume]
  by_cases hk : min (amount x) n = 0
  · left
    refine ⟨hk, ?_⟩
    simp only [hk, Nat.sub_zero, if_true]
  · right
    exact ⟨hk, if_neg hk⟩

/-- What is taken is what is asked for, as far as the queue has it. -/
theorem sum_taken (xs : List α) (n : ℕ) :
    ((consume amount drain xs n).2.map Prod.snd).sum = min n (xs.map amount).sum := by
  induction xs generalizing n with
  | nil => simp [consume]
  | cons x xs ih =>
    rcases consume_cons amount drain x xs n with ⟨hk, h⟩ | ⟨hk, h⟩
    · rw [h, ih]
      simp only [map_cons, sum_cons]
      omega
    · rw [h]
      simp only [map_cons, sum_cons, ih]
      omega

variable {amount drain} {xs : List α} {n : ℕ}

/-- Where no entry holds anything, nothing is taken. -/
theorem consume_of_empty (h : ∀ x ∈ xs, amount x = 0) (n : ℕ) : consume amount drain xs n = (xs, []) := by
  induction xs with
  | nil => rfl
  | cons x xs ih =>
    rcases consume_cons amount drain x xs n with ⟨-, he⟩ | ⟨hk, -⟩
    · rw [he, ih fun y hy => h y (mem_cons_of_mem x hy)]
    · rw [h x mem_cons_self, Nat.zero_min] at hk
      cases hk rfl

theorem consume_zero (xs : List α) : consume amount drain xs 0 = (xs, []) := by
  induction xs with
  | nil => rfl
  | cons x xs ih =>
    rcases consume_cons amount drain x xs 0 with ⟨-, he⟩ | ⟨hk, -⟩
    · rw [he, ih]
    · exact absurd (Nat.min_zero _) hk

/-- The first entry that holds anything gives all that is asked for, if it holds as much. -/
theorem consume_first {xs ys : List α} (h : ∀ y ∈ xs, amount y = 0) (hn : 0 < n) (hx : n ≤ amount x) :
    consume amount drain (xs ++ x :: ys) n = (xs ++ ((drain x n).toList ++ ys), [(x, n)]) := by
  induction xs with
  | nil =>
    have hmin : min (amount x) n = n := Nat.min_eq_right hx
    rcases consume_cons amount drain x ys n with ⟨hk, -⟩ | ⟨-, he⟩
    · rw [hmin] at hk
      exact absurd hk hn.ne'
    · rw [nil_append, he, hmin, Nat.sub_self, consume_zero]
      rfl
  | cons y xs ih =>
    rcases consume_cons amount drain y (xs ++ x :: ys) n with ⟨-, he⟩ | ⟨hk, -⟩
    · rw [cons_append, he, ih fun z hz => h z (mem_cons_of_mem y hz)]
      rfl
    · rw [h y mem_cons_self, Nat.zero_min] at hk
      cases hk rfl

/-- A total that draining lowers by what is taken drops by what is asked for. -/
theorem sum_left (hd : ∀ x k, 0 < k → k ≤ amount x → ((drain x k).toList.map amount).sum = amount x - k)
    (xs : List α) (n : ℕ) :
    ((consume amount drain xs n).1.map amount).sum = (xs.map amount).sum - n := by
  induction xs generalizing n with
  | nil => simp [consume]
  | cons x xs ih =>
    rcases consume_cons amount drain x xs n with ⟨hk, h⟩ | ⟨hk, h⟩
    · rw [h]
      simp only [map_cons, sum_cons, ih]
      omega
    · rw [h]
      simp only [map_cons, map_append, sum_append, sum_cons, ih]
      rw [hd x _ (by omega) (by omega)]
      omega

/-- A total that draining does not touch stays. -/
theorem sum_kept {weight : α → ℕ}
    (hd : ∀ x k, 0 < k → k ≤ amount x → ((drain x k).toList.map weight).sum = weight x) (xs : List α)
    (n : ℕ) : ((consume amount drain xs n).1.map weight).sum = (xs.map weight).sum := by
  induction xs generalizing n with
  | nil => simp [consume]
  | cons x xs ih =>
    rcases consume_cons amount drain x xs n with ⟨hk, h⟩ | ⟨hk, h⟩
    · rw [h]
      simp only [map_cons, sum_cons, ih]
    · rw [h]
      simp only [map_cons, map_append, sum_append, sum_cons, ih]
      rw [hd x _ (by omega) (by omega)]

/-- Entries keep their place. -/
theorem sublist_map (hd : ∀ x k y, drain x k = some y → key y = key x) (xs : List α)
    (n : ℕ) : ((consume amount drain xs n).1.map key).Sublist (xs.map key) := by
  induction xs generalizing n with
  | nil => simp [consume]
  | cons x xs ih =>
    rcases consume_cons amount drain x xs n with ⟨hk, h⟩ | ⟨hk, h⟩
    · rw [h]
      exact (ih n).cons_cons (key x)
    · rw [h]
      cases hx : drain x (min (amount x) n) with
      | none => exact (ih _).cons (key x)
      | some y =>
        simp only [Option.toList_some, singleton_append, map_cons, hd x _ y hx]
        exact (ih _).cons_cons (key x)

/-- An entry is as it was, or drained of part of what it held. -/
theorem mem_left {y : α} (h : y ∈ (consume amount drain xs n).1) :
    y ∈ xs ∨ ∃ x ∈ xs, ∃ k, 0 < k ∧ k ≤ amount x ∧ drain x k = some y := by
  induction xs generalizing n with
  | nil => simp [consume] at h
  | cons x xs ih =>
    rcases consume_cons amount drain x xs n with ⟨hk, he⟩ | ⟨hk, he⟩
    · rw [he] at h
      rcases mem_cons.1 h with rfl | h
      · exact .inl mem_cons_self
      · rcases ih h with h | ⟨z, hz, h⟩
        · exact .inl (mem_cons_of_mem x h)
        · exact .inr ⟨z, mem_cons_of_mem x hz, h⟩
    · rw [he] at h
      rcases mem_append.1 h with h | h
      · exact .inr ⟨x, mem_cons_self, min (amount x) n, Nat.pos_of_ne_zero hk, min_le_left _ _,
          by simpa using h⟩
      · rcases ih h with h | ⟨z, hz, h⟩
        · exact .inl (mem_cons_of_mem x h)
        · exact .inr ⟨z, mem_cons_of_mem x hz, h⟩

/-- What is taken from an entry is positive and within what it holds. -/
theorem mem_taken (h : (x, k) ∈ (consume amount drain xs n).2) : x ∈ xs ∧ 0 < k ∧ k ≤ amount x := by
  induction xs generalizing n with
  | nil => simp [consume] at h
  | cons z xs ih =>
    rcases consume_cons amount drain z xs n with ⟨hk, he⟩ | ⟨hk, he⟩
    · rw [he] at h
      obtain ⟨hx, h⟩ := ih h
      exact ⟨mem_cons_of_mem z hx, h⟩
    · rw [he] at h
      rcases mem_cons.1 h with h | h
      · cases h
        exact ⟨mem_cons_self, by omega, min_le_left _ _⟩
      · obtain ⟨hx, h⟩ := ih h
        exact ⟨mem_cons_of_mem z hx, h⟩

/-- **Oldest first**: an entry is touched only once every entry before it has given all it holds. -/
theorem taken_all_before {y : α} (hxy : [x, y].Sublist xs) (hx : 0 < amount x)
    (hnd : xs.Nodup) (h : (y, k) ∈ (consume amount drain xs n).2) :
    (x, amount x) ∈ (consume amount drain xs n).2 := by
  induction xs generalizing n with
  | nil => simp at hxy
  | cons z xs ih =>
    rw [nodup_cons] at hnd
    rcases consume_cons amount drain z xs n with ⟨hk, he⟩ | ⟨hk, he⟩
    · rw [he] at h ⊢
      rcases sublist_cons_iff.1 hxy with hxy | ⟨l, hl, hxy⟩
      · exact ih hxy hnd.2 h
      · -- nothing was asked for
        cases hl
        have hn : n = 0 := by omega
        have hs := sum_taken amount drain xs n
        rw [hn, Nat.zero_min, sum_eq_zero_iff] at hs
        have hk0 := hs k (mem_map.2 ⟨_, hn ▸ h, rfl⟩)
        have := (mem_taken h).2.1
        omega
    · rw [he] at h ⊢
      rcases sublist_cons_iff.1 hxy with hxs | ⟨l, hl, hxs⟩
      · have hy : y ≠ z := by
          rintro rfl
          exact hnd.1 (hxs.subset (mem_cons_of_mem _ mem_cons_self))
        have h' : (y, k) ∈ (consume amount drain xs (n - min (amount z) n)).2 := by
          rcases mem_cons.1 h with h | h
          · exact absurd (Prod.mk.inj h).1 hy
          · exact h
        exact mem_cons_of_mem _ (ih hxs hnd.2 h')
      · cases hl
        have hy : y ≠ x := by
          rintro rfl
          exact hnd.1 (hxs.subset mem_cons_self)
        have h' : (y, k) ∈ (consume amount drain xs (n - min (amount x) n)).2 := by
          rcases mem_cons.1 h with h | h
          · exact absurd (Prod.mk.inj h).1 hy
          · exact h
        -- something is left to take after the head, so the head gave all
        have hs := sum_taken amount drain xs (n - min (amount x) n)
        have hle : k ≤ ((consume amount drain xs (n - min (amount x) n)).2.map Prod.snd).sum :=
          le_sum_of_mem (mem_map.2 ⟨_, h', rfl⟩)
        have hpos := (mem_taken h').2.1
        have hmin : min (amount x) n = amount x := by omega
        rw [hmin]
        exact mem_cons_self

/-- An entry that is no longer there as it was has been taken from. -/
theorem taken_of_not_mem (hx : x ∈ xs) (h : x ∉ (consume amount drain xs n).1) :
    ∃ k, (x, k) ∈ (consume amount drain xs n).2 := by
  induction xs generalizing n with
  | nil => simp at hx
  | cons z xs ih =>
    rcases consume_cons amount drain z xs n with ⟨hk, he⟩ | ⟨hk, he⟩
    · rw [he] at h ⊢
      rcases mem_cons.1 hx with rfl | hx
      · exact absurd mem_cons_self h
      · exact ih hx fun hm => h (mem_cons_of_mem z hm)
    · rw [he] at h ⊢
      rcases mem_cons.1 hx with rfl | hx
      · exact ⟨_, mem_cons_self⟩
      · obtain ⟨k, hk⟩ := ih hx fun hm => h (mem_append_right _ hm)
        exact ⟨k, mem_cons_of_mem _ hk⟩

/-- An entry drained of all it holds is gone. -/
theorem not_mem_of_taken (hd : ∀ x k y, drain x k = some y → key y = key x)
    (hnd : (xs.map key).Nodup) (h : (x, k) ∈ (consume amount drain xs n).2) (hx : drain x k = none) :
    key x ∉ (consume amount drain xs n).1.map key := by
  induction xs generalizing n with
  | nil => simp [consume] at h
  | cons z xs ih =>
    rw [map_cons, nodup_cons] at hnd
    rcases consume_cons amount drain z xs n with ⟨hk, he⟩ | ⟨hk, he⟩
    · rw [he] at h ⊢
      have hzx : key x ≠ key z := fun hzx => hnd.1 (hzx ▸ mem_map_of_mem (mem_taken h).1)
      rw [map_cons, mem_cons, not_or]
      exact ⟨hzx, ih hnd.2 h⟩
    · rw [he] at h ⊢
      rw [map_append, mem_append, not_or]
      rcases mem_cons.1 h with h | h
      · cases h
        rw [hx]
        exact ⟨by simp, fun hm => hnd.1 ((sublist_map hd xs _).subset hm)⟩
      · refine ⟨fun hm => ?_, ih hnd.2 h⟩
        obtain ⟨y, hy, hyx⟩ := mem_map.1 hm
        have hyz := hd z _ y (by simpa using hy)
        exact hnd.1 ((hyx.symm.trans hyz) ▸ mem_map_of_mem (mem_taken h).1)

/-- A view of the entries that keeps what they hold and how they are drained. -/
theorem map_left {f : α → α} (ha : ∀ x, amount (f x) = amount x)
    (hd : ∀ x k, drain (f x) k = (drain x k).map f) (xs : List α) (n : ℕ) :
    (consume amount drain xs n).1.map f = (consume amount drain (xs.map f) n).1 := by
  induction xs generalizing n with
  | nil => rfl
  | cons x xs ih =>
    rw [map_cons]
    rcases consume_cons amount drain x xs n with ⟨hk, h⟩ | ⟨hk, h⟩
    · rcases consume_cons amount drain (f x) (xs.map f) n with ⟨-, h'⟩ | ⟨hk', -⟩
      · rw [h, h']
        exact congrArg (List.cons (f x)) (ih n)
      · rw [ha] at hk'
        exact absurd hk hk'
    · rcases consume_cons amount drain (f x) (xs.map f) n with ⟨hk', -⟩ | ⟨-, h'⟩
      · rw [ha] at hk'
        exact absurd hk' hk
      · rw [h, h', map_append, ih, ha, hd]
        cases drain x (min (amount x) n) <;> rfl

/-- Entries are taken from in their order, each once. -/
theorem taken_sublist (key : α → κ) (xs : List α) (n : ℕ) :
    ((consume amount drain xs n).2.map fun x => key x.1).Sublist (xs.map key) := by
  induction xs generalizing n with
  | nil => simp [consume]
  | cons x xs ih =>
    rcases consume_cons amount drain x xs n with ⟨hk, h⟩ | ⟨hk, h⟩
    · rw [h]
      exact (ih n).cons (key x)
    · rw [h]
      exact (ih _).cons_cons (key x)

/-- What a key finds afterwards: the entry as it was, or what the draining left of it. -/
theorem find_left [DecidableEq κ] (hd : ∀ x k y, drain x k = some y → key y = key x)
    (hnd : (xs.map key).Nodup) (i : κ) : (consume amount drain xs n).1.find? (fun y => key y = i) =
      ((consume amount drain xs n).2.find? fun x => key x.1 = i).elim (xs.find? fun x => key x = i)
        fun x => drain x.1 x.2 := by
  induction xs generalizing n with
  | nil => rfl
  | cons x xs ih =>
    rw [map_cons, nodup_cons] at hnd
    have hleft : ∀ m, key x = i → (consume amount drain xs m).1.find? (fun y => key y = i) = none := by
      intro m hx
      refine find?_eq_none.2 fun y hy hyi => hnd.1 ?_
      rw [hx, ← of_decide_eq_true hyi]
      exact (sublist_map hd xs m).subset (mem_map_of_mem hy)
    have htaken : ∀ m, key x = i → (consume amount drain xs m).2.find? (fun z => key z.1 = i) = none := by
      intro m hx
      refine find?_eq_none.2 fun z hz hzi => hnd.1 ?_
      rw [hx, ← of_decide_eq_true hzi]
      exact (taken_sublist key xs m).subset (mem_map.2 ⟨z, hz, rfl⟩)
    rcases consume_cons amount drain x xs n with ⟨hk, h⟩ | ⟨hk, h⟩
    · rw [h]
      by_cases hx : key x = i
      · rw [htaken n hx, Option.elim_none, find?_cons_of_pos (by simpa using hx),
          find?_cons_of_pos (by simpa using hx)]
      · rw [find?_cons_of_neg (by simpa using hx), find?_cons_of_neg (by simpa using hx)]
        exact ih hnd.2
    · rw [h]
      by_cases hx : key x = i
      · rw [find?_cons_of_pos (by simpa using hx), find?_append, hleft _ hx, Option.or_none]
        show _ = drain x (min (amount x) n)
        cases hy : drain x (min (amount x) n) with
        | none => rfl
        | some y =>
          have hyi : key y = i := (hd _ _ _ hy).trans hx
          simp [hyi]
      · have hdrained : (drain x (min (amount x) n)).toList.find? (fun y => key y = i) = none := by
          cases hy : drain x (min (amount x) n) with
          | none => rfl
          | some y =>
            have hyi : key y ≠ i := fun e => hx ((hd _ _ _ hy).symm.trans e)
            simp [hyi]
        rw [find?_cons_of_neg (by simpa using hx), find?_cons_of_neg (by simpa using hx),
          find?_append, hdrained, Option.none_or]
        exact ih hnd.2

end Fifo
