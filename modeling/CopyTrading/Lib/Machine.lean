import Mathlib

/-!
# Machine — runs of a guarded transition function

A machine is `fire : A → S → Option S`: action `a` in state `s` leads to `fire a s`, or is not
possible there.  `Run fire ok` are the runs all of whose actions meet `ok` in the state they start
from.  One rule carries the invariants, one turns a computed run into a run.
-/

namespace Machine

open Relation

variable {A S : Type} (fire : A → S → Option S) (ok : A → S → Prop)

/-- One action that meets `ok`. -/
def Step (s s' : S) : Prop := ∃ a, ok a s ∧ fire a s = some s'

/-- Runs whose actions all meet `ok`. -/
def Run : S → S → Prop := ReflTransGen (Step fire ok)

variable {fire ok}

theorem Run.refl (s : S) : Run fire ok s s := ReflTransGen.refl

theorem Run.snoc {s t u : S} {a : A} (h : Run fire ok s t) (ha : ok a t) (hf : fire a t = some u) :
    Run fire ok s u := ReflTransGen.tail h ⟨a, ha, hf⟩

/-- **The invariant rule**: what the first state satisfies and every allowed action keeps holds in
every state of a run. -/
theorem Run.invariant {P : S → Prop} {s s' : S} (h : Run fire ok s s') (h0 : P s)
    (hstep : ∀ a t u, ok a t → P t → fire a t = some u → P u) : P s' := by
  induction h with
  | refl => exact h0
  | tail _ ht ih =>
    obtain ⟨a, ha, hf⟩ := ht
    exact hstep a _ _ ha ih hf

/-- The actions of a run meet what follows from an invariant of the run. -/
theorem Run.strengthen {ok' : A → S → Prop} {P : S → Prop} {s s' : S} (h : Run fire ok s s') (h0 : P s)
    (hstep : ∀ a t u, ok a t → P t → fire a t = some u → P u) (himp : ∀ a t, ok a t → P t → ok' a t) :
    Run fire ok' s s' := by
  have hboth : Run fire ok' s s' ∧ P s' := by
    induction h with
    | refl => exact ⟨Run.refl s, h0⟩
    | tail _ ht ih =>
      obtain ⟨a, ha, hf⟩ := ht
      exact ⟨ih.1.snoc (himp a _ ha ih.2) hf, hstep a _ _ ha ih.2 hf⟩
  exact hboth.1

variable (fire)

/-- The state after a list of actions, if each is possible and passes `chk`. -/
def fireAll (chk : A → S → Bool) : List A → S → Option S
  | [], s => some s
  | a :: as, s => if chk a s then (fire a s).bind (fireAll chk as) else none

variable {fire}

theorem run_of_fireAll {chk : A → S → Bool} (hc : ∀ a s, chk a s = true → ok a s) {as : List A}
    {s s' : S} (h : fireAll fire chk as s = some s') : Run fire ok s s' := by
  induction as generalizing s with
  | nil =>
    obtain rfl := Option.some.inj h
    exact Run.refl s
  | cons a as ih =>
    rw [fireAll] at h
    split_ifs at h with ha
    obtain ⟨t, ht, h⟩ := Option.bind_eq_some_iff.1 h
    exact ReflTransGen.head ⟨a, hc a s ha, ht⟩ (ih h)

/-- What a computed run shows of its last state holds of some run. -/
theorem exists_of_fireAll {chk : A → S → Bool} (hc : ∀ a s, chk a s = true → ok a s) (as : List A)
    (s : S) {P : S → Prop} [DecidablePred P]
    (h : ((fireAll fire chk as s).any fun t => decide (P t)) = true) :
    ∃ t, Run fire ok s t ∧ P t := by
  cases hs : fireAll fire chk as s with
  | none => simp [hs] at h
  | some t =>
    rw [hs] at h
    exact ⟨t, run_of_fireAll hc hs, by simpa using h⟩

/-- The same for a run that goes on under another condition. -/
theorem exists_pair_of_fireAll {ok' : A → S → Prop} {chk chk' : A → S → Bool}
    (hc : ∀ a s, chk a s = true → ok a s) (hc' : ∀ a s, chk' a s = true → ok' a s) (as as' : List A)
    (s : S) {P : S → S → Prop} [∀ t u, Decidable (P t u)]
    (h : ((fireAll fire chk as s).any fun t => (fireAll fire chk' as' t).any fun u => decide (P t u)) =
      true) : ∃ t u, Run fire ok s t ∧ Run fire ok' t u ∧ P t u := by
  cases hs : fireAll fire chk as s with
  | none => simp [hs] at h
  | some t =>
    rw [hs] at h
    obtain ⟨u, hu, hP⟩ := exists_of_fireAll hc' as' t h
    exact ⟨t, u, run_of_fireAll hc hs, hu, hP⟩

section Decidable

variable {ok' : A → S → Prop} [∀ a s, Decidable (ok a s)] [∀ a s, Decidable (ok' a s)]

/-- A computed run whose actions are checked by the condition itself. -/
theorem exists_run (as : List A) (s : S) {P : S → Prop} [DecidablePred P]
    (h : ((fireAll fire (fun a s => decide (ok a s)) as s).any fun t => decide (P t)) = true) :
    ∃ t, Run fire ok s t ∧ P t :=
  exists_of_fireAll (fun _ _ h => of_decide_eq_true h) as s h

/-- The same where more is known of such a run. -/
theorem exists_run_and (as : List A) (s : S) {P Q : S → Prop} [DecidablePred P]
    (hQ : ∀ t, Run fire ok s t → P t → Q t)
    (h : ((fireAll fire (fun a s => decide (ok a s)) as s).any fun t => decide (P t))
      = true := by decide +kernel) :
    ∃ t, Run fire ok s t ∧ P t ∧ Q t := by
  obtain ⟨t, ht, hP⟩ := exists_run as s h
  exact ⟨t, ht, hP, hQ t ht hP⟩

theorem exists_run_and₂ (as : List A) (s : S) {P P' Q : S → Prop} [DecidablePred P] [DecidablePred P']
    (hQ : ∀ t, Run fire ok s t → P t → P' t → Q t)
    (h : ((fireAll fire (fun a s => decide (ok a s)) as s).any fun t => decide (P t ∧ P' t)) = true := by
      decide +kernel) : ∃ t, Run fire ok s t ∧ P t ∧ P' t ∧ Q t := by
  obtain ⟨t, ht, hP, hP'⟩ := exists_run as s h
  exact ⟨t, ht, hP, hP', hQ t ht hP hP'⟩

theorem exists_run_pair (as as' : List A) (s : S) {P : S → S → Prop} [∀ t u, Decidable (P t u)]
    (h : ((fireAll fire (fun a s => decide (ok a s)) as s).any fun t =>
      (fireAll fire (fun a s => decide (ok' a s)) as' t).any fun u => decide (P t u)) = true) :
    ∃ t u, Run fire ok s t ∧ Run fire ok' t u ∧ P t u :=
  exists_pair_of_fireAll (fun _ _ h => of_decide_eq_true h) (fun _ _ h => of_decide_eq_true h) as as' s h

end Decidable

end Machine
