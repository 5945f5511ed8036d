import Mathlib

/-!
# Filtered — what is kept of computed lists

Two functions give values for the entries of a list, the one wherever the other does and the entry is one of `q`.
Of the values that a filter keeps, both give the same exactly where the other entries give none; and a stable sort
changes nothing about it.
-/

namespace Filtered

open List

variable {α β : Type} {r : α → α → Prop} [DecidableRel r]

theorem filter_orderedInsert (htrans : ∀ x y z, r x y → r y z → r x z) (p : α → Bool) (a : α) {l : List α}
    (hs : l.Pairwise r) :
    (l.orderedInsert r a).filter p = if p a then (l.filter p).orderedInsert r a else l.filter p := by
  induction l with
  | nil => cases hp : p a <;> simp [hp]
  | cons b l ih =>
    obtain ⟨hb, hl⟩ := pairwise_cons.1 hs
    by_cases hab : r a b
    · rw [orderedInsert_cons_of_le r l hab, filter_cons]
      split_ifs with hp
      · -- everything that is kept comes after `a`
        have hall : ∀ x ∈ (b :: l).filter p, r a x := by
          intro x hx
          rcases mem_cons.1 (mem_of_mem_filter hx) with rfl | hx
          · exact hab
          · exact htrans a b x hab (hb x hx)
        cases hf : (b :: l).filter p with
        | nil => rfl
        | cons c cs =>
          rw [hf] at hall
          rw [orderedInsert_cons_of_le r cs (hall c mem_cons_self)]
      · rfl
    · rw [orderedInsert_of_not_le r l hab, filter_cons, filter_cons, ih hl]
      by_cases hpb : p b = true <;> by_cases hpa : p a = true
      · rw [if_pos hpb, if_pos hpa, if_pos hpb, if_pos hpa, orderedInsert_of_not_le r _ hab]
      · rw [if_pos hpb, if_neg hpa, if_pos hpb, if_neg hpa]
      · rw [if_neg hpb, if_pos hpa, if_neg hpb, if_pos hpa]
      · rw [if_neg hpb, if_neg hpa, if_neg hpb, if_neg hpa]

/-- A stable sort may come before or after a filter. -/
theorem filter_insertionSort (htrans : ∀ x y z, r x y → r y z → r x z) (htotal : ∀ x y, r x y ∨ r y x)
    (p : α → Bool) (l : List α) : (l.insertionSort r).filter p = (l.filter p).insertionSort r := by
  have : Std.Total r := ⟨htotal⟩
  have : IsTrans α r := ⟨htrans⟩
  induction l with
  | nil => rfl
  | cons a l ih =>
    rw [insertionSort_cons, filter_orderedInsert htrans p a (pairwise_insertionSort r l), ih,
      filter_cons]
    split_ifs <;> rfl

variable {f g : α → Option β} {p : β → Bool} {q : α → Bool} (h : ∀ a x, g a = some x ↔ f a = some x ∧ q a = true)
include h

theorem filterMap_eq (l : List α) : l.filterMap g = (l.filter q).filterMap f := by
  rw [filterMap_filter]
  refine filterMap_congr fun a _ => Option.ext fun x => ?_
  rw [h, Option.ite_none_right_eq_some, and_comm]

theorem filterMap_filter_sublist (l : List α) : ((l.filterMap g).filter p).Sublist ((l.filterMap f).filter p) := by
  rw [filterMap_eq h]
  exact (filter_sublist.filterMap f).filter p

theorem filterMap_filter_eq_iff (l : List α) : (l.filterMap g).filter p = (l.filterMap f).filter p ↔
    ∀ a ∈ l, ∀ x, f a = some x → p x = true → q a = true := by
  rw [filterMap_eq h]
  induction l with
  | nil => exact ⟨fun _ a ha => absurd ha not_mem_nil, fun _ => rfl⟩
  | cons a l ih =>
    have hsub := (((filter_sublist (p := q) (l := l)).filterMap f).filter p).length_le
    rw [forall_mem_cons]
    cases hf : f a with
    | none =>
      have hleft : ((a :: l).filter q).filterMap f = (l.filter q).filterMap f := by
        rw [filter_cons]
        split_ifs
        · exact filterMap_cons_none hf
        · rfl
      rw [hleft, filterMap_cons_none hf, ih]
      exact (and_iff_right nofun).symm
    | some x =>
      rw [filterMap_cons_some hf]
      by_cases hq : q a = true
      · rw [filter_cons_of_pos hq, filterMap_cons_some hf, filter_cons, filter_cons]
        refine Iff.trans ?_ (and_iff_right fun _ _ _ => hq).symm
        split_ifs
        · rw [cons.injEq, ih, and_iff_right rfl]
        · exact ih
      · rw [filter_cons_of_neg hq, filter_cons]
        split_ifs with hp
        · -- one more is kept on the right
          refine iff_of_false (fun heq => ?_) fun hr => hq (hr.1 x rfl hp)
          rw [heq, length_cons] at hsub
          omega
        · refine ih.trans (and_iff_right fun y hy hpy => ?_).symm
          cases hy
          exact absurd hpy hp

end Filtered
