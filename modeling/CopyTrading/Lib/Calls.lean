import Mathlib

/-!
# Calls — a program that calls a server

A program is a tree of calls; the branch taken at a call is chosen by the server's answer.  `run` takes the
answers from a sequence and keeps the log of the calls that were made.  `attempt` goes on after a success,
`each` makes one call an item and stops at the first failure, `tell` makes calls whose answers do not matter.
-/

/-- A program with calls `Q`, answers `R` and result `A`. -/
inductive Calls (Q R A : Type) where
  | done (a : A)
  | call (q : Q) (k : R → Calls Q R A)

namespace Calls

open List

variable {Q R A B F α : Type} {p : Calls Q R (Except F A)} {k : A → Calls Q R (Except F B)}

/-- One call. -/
def ask (q : Q) (read : R → A) : Calls Q R A := .call q fun r => .done (read r)

/-- One program after the other. -/
def bind (p : Calls Q R A) (k : A → Calls Q R B) : Calls Q R B :=
  match p with
  | .done a => k a
  | .call q next => .call q fun r => (next r).bind k

/-- Go on with the value of a success; a failure is the result. -/
def attempt (p : Calls Q R (Except F A)) (k : A → Calls Q R (Except F B)) : Calls Q R (Except F B) :=
  p.bind fun
    | .error f => .done (.error f)
    | .ok a => k a

/-- One call for each item, until one fails: the items that were done. -/
def each (request : α → Q) (read : R → Except F B) : List α → Calls Q R (Except F (List α))
  | [] => .done (.ok [])
  | a :: as => (ask (request a) read).attempt fun _ => (each request read as).attempt fun done =>
    .done (.ok (a :: done))

/-- Calls whose answers are not looked at. -/
def tell : List Q → Calls Q R A → Calls Q R A
  | [], p => p
  | q :: qs, p => .call q fun _ => tell qs p

/-- The log of the calls and the result, when the `n`-th call is answered by `s n`. -/
def run (p : Calls Q R A) (s : ℕ → R) : List (Q × R) × A :=
  match p with
  | .done a => ([], a)
  | .call q k =>
    let x := (k (s 0)).run fun n => s (n + 1)
    ((q, s 0) :: x.1, x.2)

variable {s : ℕ → R}

@[simp] theorem run_done (a : A) : (Calls.done a : Calls Q R A).run s = ([], a) := rfl

@[simp] theorem run_ask (q : Q) (read : R → A) : (ask q read).run s = ([(q, s 0)], read (s 0)) := rfl

/-- **Sequencing**: what follows is answered from where the first program stopped. -/
theorem run_bind (p : Calls Q R A) (k : A → Calls Q R B) (s : ℕ → R) : (p.bind k).run s =
      ((p.run s).1 ++ ((k (p.run s).2).run fun n => s ((p.run s).1.length + n)).1,
        ((k (p.run s).2).run fun n => s ((p.run s).1.length + n)).2) := by
  induction p generalizing s with
  | done a => simp [bind, run]
  | call q next ih =>
    simp only [bind, run, ih, cons_append, length_cons, Nat.add_right_comm]

theorem run_attempt_ok {a : A} (h : (p.run s).2 = .ok a) :
    (p.attempt k).run s = ((p.run s).1 ++ ((k a).run fun n => s ((p.run s).1.length + n)).1,
      ((k a).run fun n => s ((p.run s).1.length + n)).2) := by
  rw [attempt, run_bind, h]

theorem run_attempt_error {f : F}
    (h : (p.run s).2 = .error f) : (p.attempt k).run s = ((p.run s).1, .error f) := by
  rw [attempt, run_bind, h]
  simp

/-! ### The calls a program can make -/

/-- Every call of the program is one of `P`. -/
def Only (P : Q → Prop) (p : Calls Q R A) : Prop :=
  match p with
  | .done _ => True
  | .call q k => P q ∧ ∀ r, (k r).Only P

section Only

variable {P : Q → Prop} {p : Calls Q R A}

theorem only_ask {q : Q} {read : R → A} (h : P q) : (ask q read).Only P := ⟨h, fun _ => trivial⟩

/-- One program after the other. -/
theorem Only.bind {k : A → Calls Q R B} (hp : p.Only P) (hk : ∀ a, (k a).Only P) :
    (p.bind k).Only P := by
  induction p with
  | done a => exact hk a
  | call q next ih => exact ⟨hp.1, fun r => ih r (hp.2 r)⟩

theorem Only.attempt {p : Calls Q R (Except F A)} {k : A → Calls Q R (Except F B)} (hp : p.Only P)
    (hk : ∀ a, (k a).Only P) : (p.attempt k).Only P :=
  hp.bind fun
    | .error _ => trivial
    | .ok a => hk a

theorem only_each {request : α → Q} {read : R → Except F B} (h : ∀ a, P (request a)) (items : List α) :
    (each request read items).Only P := by
  induction items with
  | nil => trivial
  | cons a as ih => exact (only_ask (h a)).attempt fun _ => ih.attempt fun _ => trivial

/-- Whatever the answers, the log has no other call. -/
theorem Only.mem (h : p.Only P) {s : ℕ → R} {x : Q × R} (hx : x ∈ (p.run s).1) : P x.1 := by
  induction p generalizing s with
  | done a => cases hx
  | call q k ih =>
    rcases mem_cons.1 hx with rfl | hx
    · exact h.1
    · exact ih (s 0) (h.2 (s 0)) hx

end Only

/-! ### A call an item -/

section Each

variable (request : α → Q) (read : R → Except F B) {items : List α}

/-- The log of one call for each item. -/
def logged (request : α → Q) : List α → (ℕ → R) → List (Q × R)
  | [], _ => []
  | a :: as, s => (request a, s 0) :: logged request as fun n => s (n + 1)

variable {request} in
theorem mem_logged {x : Q × R} (h : x ∈ logged request items s) :
    ∃ a ∈ items, ∃ j < items.length, x = (request a, s j) := by
  induction items generalizing s with
  | nil => cases h
  | cons a as ih =>
    rcases mem_cons.1 h with rfl | h
    · exact ⟨a, mem_cons_self, 0, Nat.succ_pos _, rfl⟩
    · obtain ⟨b, hb, j, hj, rfl⟩ := ih h
      exact ⟨b, mem_cons_of_mem a hb, j + 1, Nat.succ_lt_succ hj, rfl⟩

theorem exists_logged (s : ℕ → R) {a : α} (h : a ∈ items) : ∃ r, (request a, r) ∈ logged request items s := by
  induction items generalizing s with
  | nil => cases h
  | cons b items ih =>
    rcases mem_cons.1 h with rfl | h
    · exact ⟨s 0, mem_cons_self⟩
    · obtain ⟨r, hr⟩ := ih (fun n => s (n + 1)) h
      exact ⟨r, mem_cons_of_mem _ hr⟩

theorem logged_mem (s : ℕ → R) {j : ℕ} (h : j < items.length) :
    ∃ a ∈ items, (request a, s j) ∈ logged request items s := by
  induction items generalizing s j with
  | nil => exact absurd h (Nat.not_lt_zero j)
  | cons a as ih =>
    cases j with
    | zero => exact ⟨a, mem_cons_self, mem_cons_self⟩
    | succ j =>
      obtain ⟨b, hb, hm⟩ := ih (fun n => s (n + 1)) (Nat.lt_of_succ_lt_succ h)
      exact ⟨b, mem_cons_of_mem a hb, mem_cons_of_mem _ hm⟩

/-- Every item is called when each call succeeds, otherwise the calls end with the first that fails. -/
theorem run_each (items : List α) (s : ℕ → R) : ((∀ j < items.length, ∃ b, read (s j) = .ok b) ∧
        (each request read items).run s = (logged request items s, .ok items)) ∨
      ∃ m < items.length, ∃ f, (∀ j < m, ∃ b, read (s j) = .ok b) ∧ read (s m) = .error f ∧
        (each request read items).run s = (logged request (items.take (m + 1)) s, .error f) := by
  induction items generalizing s with
  | nil => exact .inl ⟨fun j hj => absurd hj (Nat.not_lt_zero j), rfl⟩
  | cons a as ih =>
    unfold each
    cases hr : read (s 0) with
    | error f =>
      refine .inr ⟨0, Nat.succ_pos _, f, fun j hj => absurd hj (Nat.not_lt_zero j), hr, ?_⟩
      rw [run_attempt_error (by rw [run_ask, hr])]
      rfl
    | ok b =>
      have hcases : ∀ {m : ℕ}, (∀ j < m, ∃ b, read (s (j + 1)) = .ok b) → ∀ j < m + 1, ∃ b,
        read (s j) = .ok b := by
        intro m h j hj
        cases j with
        | zero => exact ⟨b, hr⟩
        | succ j => exact h j (Nat.lt_of_succ_lt_succ hj)
      have hshift : (fun n => s ((run (ask (request a) read) s).1.length + n)) = fun n => s (n + 1) := by
        funext n
        rw [run_ask, length_singleton, Nat.add_comm]
      rw [run_attempt_ok (a := b) (by rw [run_ask, hr]), hshift]
      rcases ih (fun n => s (n + 1)) with ⟨hall, hrun⟩ | ⟨m, hm, f, hbefore, hfail, hrun⟩
      · refine .inl ⟨hcases hall, ?_⟩
        rw [run_attempt_ok (a := as) (by rw [hrun]), hrun]
        simp [logged]
      · refine .inr ⟨m + 1, Nat.succ_lt_succ hm, f, hcases hbefore, hfail, ?_⟩
        rw [run_attempt_error (f := f) (by rw [hrun]), hrun]
        rfl

end Each

/-! ### Results under answers of a kind -/

section Yields

variable {ok : R → Prop} {p : Calls Q R A}

/-- If every answer is of a kind, so is the result. -/
def Yields (ok : R → Prop) (post : A → Prop) : Calls Q R A → Prop
  | .done a => post a
  | .call _ k => ∀ r, ok r → Yields ok post (k r)

variable {post : A → Prop}

/-- One program after the other. -/
theorem Yields.bind {k : A → Calls Q R B} {post' : B → Prop} (hp : p.Yields ok post)
    (hk : ∀ a, post a → (k a).Yields ok post') : (p.bind k).Yields ok post' := by
  induction p with
  | done a => exact hk a hp
  | call q next ih => exact fun r hr => ih r (hp r hr)

/-- A success is anything, a failure is of a kind. -/
def Failing (P : F → Prop) : Except F A → Prop
  | .ok _ => True
  | .error f => P f

variable {P : F → Prop}

theorem yields_ask {q : Q} {read : R → Except F A} (h : ∀ r, ok r → Failing P (read r)) :
    (ask q read).Yields ok (Failing P) := h

theorem Yields.attempt {p : Calls Q R (Except F A)} {k : A → Calls Q R (Except F B)} (hp : p.Yields ok (Failing P))
    (hk : ∀ a, (k a).Yields ok (Failing P)) : (p.attempt k).Yields ok (Failing P) :=
  hp.bind fun x hx => match x with
    | .error _ => hx
    | .ok a => hk a

theorem yields_each {request : α → Q} {read : R → Except F B} (h : ∀ r, ok r → Failing P (read r))
    (items : List α) :
    (each request read items).Yields ok (Failing P) := by
  induction items with
  | nil => trivial
  | cons a as ih => exact (yields_ask h).attempt fun _ => ih.attempt fun _ => trivial

theorem Yields.result (hp : p.Yields ok post) {s : ℕ → R} (hs : ∀ n, ok (s n)) : post (p.run s).2 := by
  induction p generalizing s with
  | done a => exact hp
  | call q k ih => exact ih (s 0) (hp (s 0) (hs 0)) fun n => hs (n + 1)

end Yields

/-! ### Pre- and postconditions

What a program does next depends on what it was told so far.  `note` sums up the calls and their answers, `pre`
says which call may be made after what was noted, `post` which result. -/

section Obeys

variable {H : Type} (note : H → Q → R → H) (pre : H → Q → Prop) {p : Calls Q R A}

/-- What a log amounts to. -/
def noted (h : H) (log : List (Q × R)) : H := log.foldl (fun h x => note h x.1 x.2) h

/-- Whatever the answers, every call meets `pre` and the result meets `post`. -/
def Obeys (post : H → A → Prop) (h : H) : Calls Q R A → Prop
  | .done a => post h a
  | .call q k => pre h q ∧ ∀ r, Obeys post (note h q r) (k r)

variable {note pre} {post : H → A → Prop} {h : H}

/-- One program after the other. -/
theorem Obeys.bind {k : A → Calls Q R B} {post' : H → B → Prop} (hp : Obeys note pre post h p)
    (hk : ∀ h a, post h a → Obeys note pre post' h (k a)) : Obeys note pre post' h (p.bind k) := by
  induction p generalizing h with
  | done a => exact hk h a hp
  | call q next ih => exact ⟨hp.1, fun r => ih r (hp.2 r)⟩

theorem obeys_tell {qs : List Q} (hpre : ∀ q ∈ qs, pre h q)
    (hnote : ∀ q ∈ qs, ∀ r, note h q r = h) (hp : Obeys note pre post h p) :
      Obeys note pre post h (tell qs p) := by
  induction qs with
  | nil => exact hp
  | cons q qs ih =>
    refine ⟨hpre q mem_cons_self, fun r => ?_⟩
    rw [hnote q mem_cons_self r]
    exact ih (fun q' hq => hpre q' (mem_cons_of_mem q hq)) fun q' hq => hnote q' (mem_cons_of_mem q hq)

/-- The result of a run meets `post` after its log. -/
theorem Obeys.result (hp : Obeys note pre post h p) (s : ℕ → R) :
    post (noted note h (p.run s).1) (p.run s).2 := by
  induction p generalizing h s with
  | done a => exact hp
  | call q k ih => exact ih (s 0) (hp.2 (s 0)) fun n => s (n + 1)

/-- Every call of a run meets `pre` after the log before it. -/
theorem Obeys.call (hp : Obeys note pre post h p) {s : ℕ → R} {before after : List (Q × R)} {q : Q}
    {r : R} (hlog : (p.run s).1 = before ++ (q, r) :: after) : pre (noted note h before) q := by
  induction p generalizing h s before with
  | done a => exact absurd hlog.symm (append_ne_nil_of_right_ne_nil before (cons_ne_nil _ _))
  | call q' k ih =>
    cases before with
    | nil =>
      obtain ⟨rfl, -⟩ := Prod.mk.inj (cons.inj hlog).1
      exact hp.1
    | cons x before =>
      obtain ⟨rfl, htail⟩ := cons.inj hlog
      exact ih (s 0) (hp.2 (s 0)) htail

end Obeys

end Calls
