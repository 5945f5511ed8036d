import CopyTrading.Webhook.Act

/-!
# Webhook.Verdicts — what the answer to an alert says of the copier

A resend is welcome when nothing was sent.  One close or cancel alert makes a call for each position or order and
is answered by the class of the call that failed, whatever the calls before it did; and a read of the book is
classified as a trade is.
-/

namespace Webhook

open Calls List

/-! ### One call -/

section Copier

variable {o : Outcome} {f : Failure}

theorem accepted_of_ok {r : Reply} (h : copier o = .ok r) : o.accepted = true := by
  cases o with
  | late | unreachable text | broken text took => simp [copier] at h
  | answered status reply took =>
    by_cases h5 : 500 ≤ status
    · simp [copier, h5] at h
    · by_cases h4 : 400 ≤ status
      · simp only [copier, if_neg h5, if_pos h4] at h
        split_ifs at h
      · have hlt : status < 400 := by omega
        simp [Outcome.accepted, hlt]

/-- A refusal and a call that was not made are no acceptance; an unknown outcome was written. -/
theorem copier_error (h : copier o = .error f) :
    (f.verdict.clearFp = true → o.accepted = false) ∧ (f.verdict.outcome = .unknown → o.written = true) := by
  cases o with
  | late | unreachable text => simp [copier] at h; subst h; simp [Failure.verdict, Outcome.accepted]
  | broken text took => simp [copier] at h; subst h; simp [Failure.verdict, Outcome.written]
  | answered status reply took =>
    refine ⟨fun hfree => ?_, fun _ => rfl⟩
    by_cases h5 : 500 ≤ status
    · simp only [copier, if_pos h5, Except.error.injEq] at h
      subst h
      simp [Failure.verdict] at hfree
    · by_cases h4 : 400 ≤ status
      · have hge : ¬ status < 400 := by omega
        simp [Outcome.accepted, hge, h5]
      · simp [copier, h5, h4] at h

end Copier

/-! ### The reads of a close -/

section Held

variable {symbol : String} {s : ℕ → Outcome}

/-- `reply` was read and has no position on the symbol, and the resync is no reason to stop. -/
def Rereads (symbol : String) (s : ℕ → Outcome) : Prop :=
  ∃ reply, copier (s 0) = .ok reply ∧ findMasterPositions reply.book symbol none = [] ∧ resynced (s 1) = .ok ()

/-- The reads of a close, as the answers have it. -/
theorem run_held (symbol : String) (s : ℕ → Outcome) :
    (∃ f, copier (s 0) = .error f ∧ (held symbol).run s = ([(.state, s 0)], .error f)) ∨
    (∃ reply f, copier (s 0) = .ok reply ∧ findMasterPositions reply.book symbol none = [] ∧
      resynced (s 1) = .error f ∧ (held symbol).run s = ([(.state, s 0), (.resync, s 1)], .error f)) ∨
    (Rereads symbol s ∧ ∃ f, copier (s 2) = .error f ∧
      (held symbol).run s = ([(.state, s 0), (.resync, s 1), (.state, s 2)], .error f)) ∨
    (Rereads symbol s ∧ ∃ reply, copier (s 2) = .ok reply ∧
      (held symbol).run s = ([(.state, s 0), (.resync, s 1), (.state, s 2)],
        .ok (findMasterPositions reply.book symbol none))) ∨
    ∃ reply, copier (s 0) = .ok reply ∧ findMasterPositions reply.book symbol none ≠ [] ∧
      (held symbol).run s = ([(.state, s 0)], .ok (findMasterPositions reply.book symbol none)) := by
  cases h0 : copier (s 0) with
  | error f =>
    refine .inl ⟨f, rfl, ?_⟩
    rw [held, run_attempt_error (f := f) (by rw [request, run_ask, h0])]
    rfl
  | ok reply =>
    rw [held, run_attempt_ok (a := reply) (by rw [request, run_ask, h0])]
    simp only [request, run_ask, length_singleton]
    cases hfind : findMasterPositions reply.book symbol none with
    | cons p ps => exact .inr (.inr (.inr (.inr ⟨reply, rfl, by simp [hfind], by simp [hfind]⟩)))
    | nil =>
      simp only
      cases h1 : resynced (s 1) with
      | error f =>
        refine .inr (.inl ⟨reply, f, rfl, hfind, rfl, ?_⟩)
        rw [run_attempt_error (f := f) (by rw [run_ask, h1])]
        rfl
      | ok u =>
        have hre : Rereads symbol s := ⟨reply, h0, hfind, h1⟩
        rw [run_attempt_ok (a := u) (by rw [run_ask, h1])]
        simp only [run_ask, length_singleton]
        cases h2 : copier (s 2) with
        | error f =>
          refine .inr (.inr (.inl ⟨hre, f, rfl, ?_⟩))
          rw [run_attempt_error (f := f) (by rw [run_ask, h2])]
          rfl
        | ok reply' =>
          refine .inr (.inr (.inr (.inl ⟨hre, reply', rfl, ?_⟩)))
          rw [run_attempt_ok (a := reply') (by rw [run_ask, h2])]
          rfl

end Held

/-! ### What an alert's calls come to -/

section Acted

variable (alert : Alert) (s : ℕ → Outcome)

/-- The answers to the reads of `/state` that the alert makes. -/
def StateRead (o : Outcome) : Prop := o = s 0 ∨ alert.action = .close ∧ Rereads alert.symbol s ∧ o = s 2

/-- The number of reads and of the close or cancel requests that the book calls for; none if a read fails. -/
def found : ℕ × ℕ :=
  match alert.action, copier (s 0) with
  | .close, .ok reply =>
    match findMasterPositions reply.book alert.symbol none with
    | [] =>
      match resynced (s 1), copier (s 2) with
      | .ok _, .ok reply => (3, (findMasterPositions reply.book alert.symbol none).length)
      | _, _ => (0, 0)
    | positions => (1, positions.length)
  | .cancel, .ok reply => (1, (findResting reply.book alert.symbol).length)
  | _, _ => (0, 0)

/-- The calls before the first trade. -/
structure ReadsOk (reads : List (Request × Outcome)) : Prop where
  noTrade : ∀ x ∈ reads, x.1.isTrade = false
  state : ∀ o, (Request.state, o) ∈ reads → StateRead alert s o
  fine : ∀ o, StateRead alert s o → ∃ reply, copier o = .ok reply

/-- The four ways an alert ends. -/
inductive Acted : List (Request × Outcome) → Verdict → Prop where
  /-- A read failed. -/
  | unread {before : List (Request × Outcome)} {q : Request} {o : Outcome} {f : Failure}
      (noTrade : ∀ x ∈ before, x.1.isTrade = false) (read : q.isTrade = false) (fails : copier o = .error f)
      (state : q = .state → StateRead alert s o)
      (resync : q ≠ .state → f.verdict.outcome ≠ .unknown ∧ ∀ o, StateRead alert s o → ∃ r, copier o = .ok r)
      (none : (found alert s).2 = 0) : Acted (before ++ [(q, o)]) f.verdict
  /-- The book is a reason to refuse. -/
  | refused {reads : List (Request × Outcome)} {reason : String} (readsOk : ReadsOk alert s reads)
      (none : (found alert s).2 = 0) : Acted reads (Failure.rejected 422 reason).verdict
  /-- A trade failed, after `m` that succeeded. -/
  | stopped {reads : List (Request × Outcome)} {trades : List Request} {m : ℕ} {f : Failure}
      (readsOk : ReadsOk alert s reads) (trade : ∀ q ∈ trades, q.isTrade = true) (count : trades.length = m + 1)
      (wanted : m = 0 ∧ (found alert s).2 = 0 ∨ (found alert s).1 = reads.length ∧ m < (found alert s).2)
      (before : ∀ j < m, ∃ r, copier (s (reads.length + j)) = .ok r)
      (fails : copier (s (reads.length + m)) = .error f) :
      Acted (reads ++ logged id trades fun j => s (reads.length + j)) f.verdict
  /-- Every trade succeeded. -/
  | finished {reads log : List (Request × Outcome)} {v : Verdict} (readsOk : ReadsOk alert s reads)
      (trade : ∀ x ∈ log, x.1.isTrade = true) (kept : v.clearFp = false) (known : v.outcome ≠ .unknown)
      (all : ∀ m < (found alert s).2, ∃ r, copier (s ((found alert s).1 + m)) = .ok r) : Acted (reads ++ log) v

variable {alert s}

theorem logged_map {α : Type} (f : α → Request) (items : List α) (s : ℕ → Outcome) :
    logged f items s = logged id (items.map f) s := by
  induction items generalizing s with
  | nil => rfl
  | cons a as ih =>
    rw [map_cons, logged, logged, ih]
    rfl

/-- One request for each item that the reads found. -/
theorem acted_each {α : Type} {reading : Calls Request Outcome (Except Failure (List α))} (f : α → Request)
    (nothing : ReceiptOutcome) (reason : String) {items : List α} {reads : List (Request × Outcome)}
    (hrun : reading.run s = (reads, .ok items)) (hreads : ReadsOk alert s reads)
    (htrade : ∀ a, (f a).isTrade = true) (hnothing : nothing ≠ .unknown)
    (hfound : found alert s = (reads.length, items.length)) :
    let r := ((reading.attempt fun items => each f copier items).bind fun r =>
      .done (doneVerdict nothing reason r)).run s
    Acted alert s r.1 r.2 := by
  intro r
  have hr : r = (((reading.attempt fun items => each f copier items).run s).1,
      doneVerdict nothing reason ((reading.attempt fun items => each f copier items).run s).2) := by
    simp only [r, run_bind, run_done, append_nil]
  rw [run_attempt_ok (a := items) (by rw [hrun]), hrun] at hr
  simp only at hr
  rcases run_each f copier items (fun j => s (reads.length + j)) with
    ⟨hall, hlog⟩ | ⟨m, hm, e, hbefore, hfail, hlog⟩
  · rw [hr, hlog]
    refine .finished hreads ?_ ?_ ?_ ?_
    · intro x hx
      obtain ⟨a, -, j, -, rfl⟩ := mem_logged hx
      exact htrade a
    · cases items <;> rfl
    · cases items with
      | nil => exact hnothing
      | cons a as => exact nofun
    · rw [hfound]
      exact hall
  · rw [hr, hlog, logged_map]
    refine .stopped hreads ?_ ?_ (.inr ?_) hbefore hfail
    · intro q hq
      obtain ⟨a, -, rfl⟩ := mem_map.1 hq
      exact htrade a
    · rw [length_map, length_take]
      omega
    · rw [hfound]
      exact ⟨rfl, hm⟩

theorem stateRead_first (hclose : alert.action = .close → ¬ Rereads alert.symbol s) {o : Outcome}
    (h : StateRead alert s o) : o = s 0 := by
  rcases h with rfl | ⟨ha, hr, -⟩
  · rfl
  · exact absurd hr (hclose ha)

/-- The reads when the first book is enough. -/
theorem readsOk_first {reply : Reply} (h0 : copier (s 0) = .ok reply)
    (hclose : alert.action = .close → ¬ Rereads alert.symbol s) : ReadsOk alert s [(.state, s 0)] := by
  refine ⟨?_, ?_, ?_⟩
  · intro x hx
    obtain rfl := mem_singleton.1 hx
    rfl
  · intro o ho
    obtain h := mem_singleton.1 ho
    exact .inl (congrArg Prod.snd h)
  · intro o ho
    rw [stateRead_first hclose ho]
    exact ⟨reply, h0⟩

/-- The first read fails. -/
theorem acted_unread {f : Failure} (h0 : copier (s 0) = .error f) : Acted alert s [(.state, s 0)] f.verdict := by
  show Acted alert s ([] ++ [(.state, s 0)]) f.verdict
  refine .unread (forall_mem_nil _) rfl h0 (fun _ => .inl rfl)
    (fun h => absurd rfl h) ?_
  unfold found
  rw [h0]
  cases alert.action <;> rfl

theorem acted_close (master maxOpen : ℕ) (ha : alert.action = .close) :
    Acted alert s ((act master maxOpen alert).run s).1 ((act master maxOpen alert).run s).2 := by
  have herror : ∀ {log : List (Request × Outcome)} {f : Failure}, (held alert.symbol).run s = (log, .error f) →
      (act master maxOpen alert).run s = (log, f.verdict) := by
    intro log f h
    simp only [act, ha, close, run_bind, run_done, append_nil]
    rw [run_attempt_error (f := f) (by rw [h]), h]
    rfl
  have hok : ∀ {reads : List (Request × Outcome)} {items : List BookPosition},
      (held alert.symbol).run s = (reads, .ok items) → ReadsOk alert s reads →
      found alert s = (reads.length, items.length) →
      Acted alert s ((act master maxOpen alert).run s).1 ((act master maxOpen alert).run s).2 := by
    intro reads items h hreads hfound
    have key := acted_each (fun p : BookPosition => Request.close master p.positionId) .nothingToClose
      "nothing open on that symbol" h hreads (fun _ => rfl) nofun hfound
    simpa only [act, ha, close] using key
  rcases run_held alert.symbol s with ⟨f, h0, hrun⟩ | ⟨reply, f, h0, hfind, h1, hrun⟩ | ⟨hre, f, h2, hrun⟩ |
      ⟨hre, reply, h2, hrun⟩ | ⟨reply, h0, hfind, hrun⟩
  · rw [herror hrun]
    exact acted_unread h0
  · -- the resync stops it
    rw [herror hrun]
    have hcopier : copier (s 1) = .error f ∧ f.verdict.outcome ≠ .unknown := by
      unfold resynced at h1
      split at h1
      · cases h1
      · next g hg hc =>
        obtain rfl := Except.error.inj h1
        refine ⟨hc, ?_⟩
        cases g with
        | rejected status reason | down text => exact nofun
        | unknown text => exact absurd rfl (hg text)
      · cases h1
    have hno : ¬ Rereads alert.symbol s := by
      rintro ⟨-, -, -, hr⟩
      rw [h1] at hr
      cases hr
    show Acted alert s ([(.state, s 0)] ++ [(.resync, s 1)]) f.verdict
    refine .unread ?_ rfl hcopier.1 nofun (fun _ => ⟨hcopier.2, ?_⟩) ?_
    · exact (readsOk_first h0 fun _ => hno).noTrade
    · exact (readsOk_first h0 fun _ => hno).fine
    · simp only [found, ha, h0, hfind, h1]
  · rw [herror hrun]
    show Acted alert s ([(.state, s 0), (.resync, s 1)] ++ [(.state, s 2)]) f.verdict
    refine .unread ?_ rfl h2 (fun _ => .inr ⟨ha, hre, rfl⟩)
      (fun h => absurd rfl h) ?_
    · intro x hx
      simp only [mem_cons, not_mem_nil, or_false] at hx
      rcases hx with rfl | rfl <;> rfl
    · obtain ⟨reply, h0, hfind, h1⟩ := hre
      simp only [found, ha, h0, hfind, h1, h2]
  · have hre' := hre
    obtain ⟨reply₀, h0, hfind, h1⟩ := hre'
    refine hok hrun ⟨?_, ?_, ?_⟩ (by simp only [found, ha, h0, hfind, h1, h2]; rfl)
    · intro x hx
      simp only [mem_cons, not_mem_nil, or_false] at hx
      rcases hx with rfl | rfl | rfl <;> rfl
    · intro o ho
      simp only [mem_cons, Prod.mk.injEq, reduceCtorEq, false_and, not_mem_nil, or_false, false_or,
        true_and] at ho
      rcases ho with rfl | rfl
      · exact .inl rfl
      · exact .inr ⟨ha, hre, rfl⟩
    · rintro o (rfl | ⟨-, -, rfl⟩)
      · exact ⟨reply₀, h0⟩
      · exact ⟨reply, h2⟩
  · have hno : ¬ Rereads alert.symbol s := by
      rintro ⟨reply', h0', hnil, -⟩
      cases h0.symm.trans h0'
      exact hfind hnil
    refine hok hrun (readsOk_first h0 fun _ => hno) ?_
    simp only [found, ha, h0]
    rfl

theorem acted_cancel (master maxOpen : ℕ) (ha : alert.action = .cancel) :
    Acted alert s ((act master maxOpen alert).run s).1 ((act master maxOpen alert).run s).2 := by
  cases h0 : copier (s 0) with
  | error f =>
    have hrun : (act master maxOpen alert).run s = ([(.state, s 0)], f.verdict) := by
      simp only [act, ha, cancel, run_bind, run_done, append_nil]
      rw [run_attempt_error (f := f), resting, run_attempt_error (f := f)] <;>
        simp [resting, request, h0, run_attempt_error, doneVerdict]
    rw [hrun]
    exact acted_unread h0
  | ok reply =>
    have hrest : (resting alert.symbol).run s = ([(.state, s 0)], .ok (findResting reply.book alert.symbol)) := by
      rw [resting, run_attempt_ok (a := reply) (by rw [request, run_ask, h0])]
      rfl
    have key := acted_each (fun o : BookOrder => Request.cancel master o.orderId) .nothingToCancel
      "no order resting on that symbol" hrest
      (readsOk_first h0 fun h => absurd (ha.symm.trans h) nofun) (fun _ => rfl) nofun
      (by simp only [found, ha, h0, length_singleton])
    simpa only [act, ha, cancel] using key

/-- A signal makes one order at most, after one read. -/
theorem run_place (maxOpen : ℕ) (signal : Signal) (s : ℕ → Outcome) :
    (∃ f, copier (s 0) = .error f ∧ (place maxOpen signal).run s = ([(.state, s 0)], .error f)) ∨
    (∃ reply reason, copier (s 0) = .ok reply ∧
      (place maxOpen signal).run s = ([(.state, s 0)], .error (.rejected 422 reason))) ∨
    ∃ reply, copier (s 0) = .ok reply ∧ signal.opposes reply.book = false ∧
      (place maxOpen signal).run s =
        ([(.state, s 0), (.order signal.order, s 1)], (copier (s 1)).map fun _ => ()) := by
  cases h0 : copier (s 0) with
  | error f =>
    refine .inl ⟨f, rfl, ?_⟩
    rw [place, run_attempt_error (f := f) (by rw [request, run_ask, h0])]
    rfl
  | ok reply =>
    rw [place, run_attempt_ok (a := reply) (by rw [request, run_ask, h0])]
    simp only [request, run_ask, length_singleton]
    by_cases hopp : signal.opposes reply.book = true
    · rw [if_pos hopp]
      exact .inr (.inl ⟨reply, _, rfl, rfl⟩)
    · rw [if_neg hopp]
      by_cases hmax : maxOpen ≤ reply.book.masterPositions.length + reply.book.pendingOrders.length
      · rw [if_pos hmax]
        exact .inr (.inl ⟨reply, _, rfl, rfl⟩)
      · rw [if_neg hmax]
        refine .inr (.inr ⟨reply, rfl, Bool.not_eq_true _ ▸ hopp, ?_⟩)
        cases h1 : copier (s 1) with
        | error f =>
          rw [run_attempt_error (f := f) (by rw [run_ask, h1])]
          rfl
        | ok reply' =>
          rw [run_attempt_ok (a := reply') (by rw [run_ask, h1])]
          rfl

theorem acted_place (maxOpen : ℕ) (signal : Signal) (hclose : alert.action ≠ .close)
    (hfound : (found alert s).2 = 0) :
    let r := ((place maxOpen signal).bind fun r => .done (placedVerdict r)).run s
    Acted alert s r.1 r.2 := by
  intro r
  have hr : r = (((place maxOpen signal).run s).1, placedVerdict ((place maxOpen signal).run s).2) := by
    simp only [r, run_bind, run_done, append_nil]
  have hreads : ∀ {reply : Reply}, copier (s 0) = .ok reply → ReadsOk alert s [(.state, s 0)] :=
    fun h0 => readsOk_first h0 fun h => absurd h hclose
  rcases run_place maxOpen signal s with ⟨f, h0, hrun⟩ | ⟨reply, reason, h0, hrun⟩ | ⟨reply, h0, -, hrun⟩
  · rw [hr, hrun]
    exact acted_unread h0
  · rw [hr, hrun]
    exact .refused (hreads h0) hfound
  · rw [hr, hrun]
    cases h1 : copier (s 1) with
    | error f =>
      show Acted alert s ([(.state, s 0)] ++ logged id [.order signal.order] fun j => s (1 + j)) f.verdict
      exact .stopped (m := 0) (hreads h0)
        (fun q hq => by rw [mem_singleton.1 hq]; rfl) rfl (.inl ⟨rfl, hfound⟩)
        (fun j hj => absurd hj (Nat.not_lt_zero j)) h1
    | ok reply' =>
      show Acted alert s ([(.state, s 0)] ++ [(.order signal.order, s 1)]) _
      refine .finished (hreads h0)
        (fun x hx => by rw [mem_singleton.1 hx]; rfl) rfl nofun ?_
      rw [hfound]
      exact fun m hm => absurd hm (Nat.not_lt_zero m)

/-- **Every alert and every sequence of answers** ends in one of the four ways. -/
theorem act_acted (master maxOpen : ℕ) (alert : Alert) (s : ℕ → Outcome) :
    Acted alert s ((act master maxOpen alert).run s).1 ((act master maxOpen alert).run s).2 := by
  cases ha : alert.action with
  | close => exact acted_close master maxOpen ha
  | cancel => exact acted_cancel master maxOpen ha
  | buy | sell =>
    have hfound : (found alert s).2 = 0 := by
      simp only [found, ha]
    simp only [act, ha]
    exact acted_place maxOpen _ (fun h => absurd (ha.symm.trans h) nofun) hfound

end Acted

/-! ### Answers that invite a resend -/

/-- A 503 `failed` or a 4xx `rejected` that frees the fingerprint. -/
def Verdict.Frees (v : Verdict) : Prop :=
  v.clearFp = true ∧
    (v.status = 503 ∧ v.outcome = .failed ∨ 400 ≤ v.status ∧ v.status < 500 ∧ v.outcome = .rejected)

/-- The first of the alert's close or cancel requests that does not succeed is the very first one, or its outcome
is not known. -/
def FirstFailsFirst (alert : Alert) (s : ℕ → Outcome) : Prop :=
  ∀ m, 0 < m → m < (found alert s).2 → (∀ j < m, ∃ r, copier (s ((found alert s).1 + j)) = .ok r) →
    ∀ f, copier (s ((found alert s).1 + m)) = .error f → ∃ text, f = .unknown text

/-- A failure of a call that is not unknown is answered so. -/
theorem copier_frees {o : Outcome} {f : Failure} (h : copier o = .error f) (hf : ∀ text, f ≠ .unknown text) :
    f.verdict.Frees := by
  cases f with
  | unknown text => exact absurd rfl (hf text)
  | down text => exact ⟨rfl, .inl ⟨rfl, rfl⟩⟩
  | rejected status reason =>
    refine ⟨rfl, .inr ?_⟩
    cases o with
    | late | unreachable text | broken text took => simp [copier] at h
    | answered code reply took =>
      simp only [copier] at h
      split_ifs at h
      · cases Except.error.inj h
      · cases Except.error.inj h
      · have hstatus : 422 = status := (Failure.rejected.inj (Except.error.inj h)).1
        subst hstatus
        exact ⟨Nat.le_of_ble_eq_true rfl, Nat.le_of_ble_eq_true rfl, rfl⟩

/-- **When a freed fingerprint means that nothing was accepted.** -/
theorem failed_means_nothing_sent (master maxOpen : ℕ) (alert : Alert) (s : ℕ → Outcome) :
    (((act master maxOpen alert).run s).2.Frees →
        ∀ x ∈ ((act master maxOpen alert).run s).1, x.1.isTrade = true → x.2.accepted = false) ↔
      FirstFailsFirst alert s := by
  generalize hlog : ((act master maxOpen alert).run s).1 = log
  generalize hv : ((act master maxOpen alert).run s).2 = v
  have hacted := act_acted master maxOpen alert s
  rw [hlog, hv] at hacted
  constructor
  · -- a failure that is not unknown after a success is answered as if nothing was sent
    intro h m hpos hm hbefore f hfail
    by_contra hnot
    simp only [not_exists] at hnot
    cases hacted with
    | unread _ _ _ _ _ none | refused _ none => omega
    | @stopped reads trades m' f' readsOk trade count wanted before fails =>
      have hn : (found alert s).1 = reads.length := by
        rcases wanted with ⟨-, h0⟩ | ⟨h, -⟩
        · omega
        · exact h
      rw [hn] at hbefore hfail
      have hmm : m' = m := by
        rcases Nat.lt_trichotomy m' m with hlt | heq | hgt
        · obtain ⟨r, hr⟩ := hbefore m' hlt
          rw [hr] at fails
          cases fails
        · exact heq
        · obtain ⟨r, hr⟩ := before m hgt
          rw [hr] at hfail
          cases hfail
      subst hmm
      cases fails.symm.trans hfail
      obtain ⟨r, hr⟩ := hbefore 0 hpos
      cases trades with
      | nil => simp at count
      | cons q trades =>
        have hmem : (q, s (reads.length + 0)) ∈ reads ++ logged id (q :: trades) fun j => s (reads.length + j) :=
          mem_append_right _ mem_cons_self
        have hacc := h (copier_frees hfail hnot) _ hmem (trade q mem_cons_self)
        rw [accepted_of_ok hr] at hacc
        cases hacc
    | finished _ _ _ _ all =>
      obtain ⟨r, hr⟩ := all m hm
      rw [hr] at hfail
      cases hfail
  · intro h hfrees x hx htrade
    cases hacted with
    | unread noTrade read _ _ _ _ =>
      rcases mem_append.1 hx with hx | hx
      · rw [noTrade x hx] at htrade
        cases htrade
      · rw [mem_singleton.1 hx] at htrade
        rw [read] at htrade
        cases htrade
    | refused readsOk _ =>
      rw [readsOk.noTrade x hx] at htrade
      cases htrade
    | @stopped reads trades m f readsOk trade count wanted before fails =>
      rcases mem_append.1 hx with hx | hx
      · rw [readsOk.noTrade x hx] at htrade
        cases htrade
      · have hm : m = 0 := by
          by_contra hne
          rcases wanted with ⟨h0, -⟩ | ⟨hn, hlt⟩
          · exact hne h0
          · rw [← hn] at before fails
            obtain ⟨text, rfl⟩ := h m (Nat.pos_of_ne_zero hne) hlt before f fails
            cases hfrees.1
        subst hm
        obtain ⟨q, -, j, hj, rfl⟩ := mem_logged hx
        obtain rfl : j = 0 := by omega
        exact (copier_error fails).1 hfrees.1
    | finished _ _ kept _ _ =>
      cases kept.symm.trans hfrees.1

/-- The book of two positions on one symbol. -/
def samplePair : Book :=
  ⟨[⟨7, some "XAUUSD", .buy⟩, ⟨8, some "XAUUSD", .buy⟩], [], by decide, by decide⟩

def sampleClose : Alert := ⟨.close, "XAUUSD", none, none, none, "1", .market, none⟩

/-- The copier closes the first position and is gone before the second. -/
def sampleGone : ℕ → Outcome
  | 0 => .answered 200 ⟨samplePair, ""⟩ true
  | 1 => .answered 200 ⟨.empty, ""⟩ true
  | _ => .unreachable "ConnectError"

/-- A position was closed and the alert is answered as if nothing was sent. -/
theorem failed_after_close : ((act 1 3 sampleClose).run sampleGone).2.Frees ∧
    (Request.close 1 7, sampleGone 1) ∈ ((act 1 3 sampleClose).run sampleGone).1 ∧
    (sampleGone 1).accepted = true := by
  refine ⟨⟨by decide, .inl ⟨by decide, by decide⟩⟩, by decide, rfl⟩

/-! ### Answers that end it -/

/-- The copier could not be reached. -/
def Failure.isDown : Failure → Bool
  | .down _ => true
  | _ => false

/-- No read of `/state` times out, is answered by a 5xx or is refused for good. -/
def ReadsDown (alert : Alert) (s : ℕ → Outcome) : Prop :=
  ∀ o, StateRead alert s o → ∀ f, copier o = .error f → f.isDown = true

/-- A read that fails is the last call, so one read at most fails. -/
theorem StateRead.unique {alert : Alert} {s : ℕ → Outcome} {o o' : Outcome} {f f' : Failure}
    (h : StateRead alert s o) (h' : StateRead alert s o') (hf : copier o = .error f)
      (hf' : copier o' = .error f') :
    o = o' := by
  rcases h with rfl | ⟨-, ⟨r, hr, -⟩, rfl⟩ <;> rcases h' with rfl | ⟨-, ⟨r', hr', -⟩, rfl⟩
  · rfl
  · rw [hr'] at hf
    cases hf
  · rw [hr] at hf'
    cases hf'
  · rfl

/-- **When `unknown` is answered only after a trade request was written**, and a failure to read `/state` so that
the alert is sent again. -/
theorem unknown_only_after_trade (master maxOpen : ℕ) (alert : Alert) (s : ℕ → Outcome) :
    ((((act master maxOpen alert).run s).2.outcome = .unknown →
          ∃ x ∈ ((act master maxOpen alert).run s).1, x.1.isTrade = true ∧ x.2.written = true) ∧
        ∀ o f, ((act master maxOpen alert).run s).1.getLast? = some (.state, o) → copier o = .error f →
          ((act master maxOpen alert).run s).2.status = 503 ∧
            ((act master maxOpen alert).run s).2.outcome = .failed) ↔
      ReadsDown alert s := by
  generalize hlog : ((act master maxOpen alert).run s).1 = log
  generalize hv : ((act master maxOpen alert).run s).2 = v
  have hacted := act_acted master maxOpen alert s
  rw [hlog, hv] at hacted
  constructor
  · rintro ⟨-, hresent⟩ o ho f hf
    cases hacted with
    | @unread before q o' f' _ _ fails state resync _ =>
      by_cases hq : q = .state
      · subst hq
        obtain rfl := StateRead.unique ho (state rfl) hf fails
        cases hf.symm.trans fails
        obtain ⟨h503, -⟩ := hresent o f (by rw [getLast?_append_of_ne_nil _ (by simp)]; rfl) hf
        cases f with
        | down text => rfl
        | unknown text => cases h503
        | rejected status reason =>
          have hlt := (copier_frees hf nofun).2
          simp only [h503] at hlt
          rcases hlt with ⟨-, hfailed⟩ | ⟨-, hlt, -⟩
          · cases hfailed
          · exact absurd hlt (by decide)
      · obtain ⟨r, hr⟩ := (resync hq).2 o ho
        rw [hr] at hf
        cases hf
    | refused readsOk _ | stopped readsOk _ _ _ _ _ | finished readsOk _ _ _ _ =>
      obtain ⟨r, hr⟩ := readsOk.fine o ho
      rw [hr] at hf
      cases hf
  · intro h
    have hstate : ∀ {reads : List (Request × Outcome)}, ReadsOk alert s reads → ∀ o f,
        (Request.state, o) ∈ reads → copier o = .error f → False := by
      intro reads readsOk o f hm hf
      obtain ⟨r, hr⟩ := readsOk.fine o (readsOk.state o hm)
      rw [hr] at hf
      cases hf
    cases hacted with
    | @unread before q o' f' _ _ fails state resync _ =>
      have hdown : q = .state → f'.isDown = true := fun hq => h o' (state hq) f' fails
      refine ⟨fun hu => ?_, fun o f hlast hf => ?_⟩
      · by_cases hq : q = .state
        · have hd := hdown hq
          cases f' with
          | down text | rejected status reason => cases hu
          | unknown text => cases hd
        · exact absurd hu (resync hq).1
      · rw [getLast?_append_of_ne_nil _ (by simp), getLast?_singleton, Option.some.injEq,
          Prod.mk.injEq] at hlast
        have hd := hdown hlast.1
        cases f' with
        | down text => exact ⟨rfl, rfl⟩
        | unknown text | rejected status reason => cases hd
    | refused readsOk _ =>
      refine ⟨nofun, fun o f hlast hf => ?_⟩
      exact (hstate readsOk o f (mem_of_getLast? hlast) hf).elim
    | @stopped reads trades m f readsOk trade count wanted before fails =>
      have hne : logged id trades (fun j => s (reads.length + j)) ≠ [] := by
        cases trades with
        | nil => simp at count
        | cons q trades => exact nofun
      refine ⟨fun hu => ?_, fun o f hlast hf => ?_⟩
      · obtain ⟨q, hq, hm⟩ := logged_mem id (fun j => s (reads.length + j)) (show m < trades.length by omega)
        exact ⟨_, mem_append_right _ hm, trade q hq, (copier_error fails).2 hu⟩
      · rw [getLast?_append_of_ne_nil _ hne] at hlast
        obtain ⟨q, hq, j, -, hx⟩ := mem_logged (mem_of_getLast? hlast)
        obtain rfl : Request.state = q := congrArg Prod.fst hx
        cases trade _ hq
    | @finished reads log v readsOk trade kept known all =>
      refine ⟨fun hu => absurd hu known, fun o f hlast hf => ?_⟩
      rcases mem_append.1 (mem_of_getLast? hlast) with hm | hm
      · exact (hstate readsOk o f hm hf).elim
      · cases trade _ hm

/-- The book cannot be read in time. -/
def sampleSlow : ℕ → Outcome := fun _ => .broken "ReadTimeout" false

/-- An alert whose book could not be read is answered `unknown`, though nothing but the read was sent. -/
theorem unknown_after_read : ((act 1 3 sampleClose).run sampleSlow).2.outcome = .unknown ∧
    ((act 1 3 sampleClose).run sampleSlow).2.status = 200 ∧
    ((act 1 3 sampleClose).run sampleSlow).1 = [(.state, sampleSlow 0)] := by
  refine ⟨by decide, by decide, rfl⟩

end Webhook
