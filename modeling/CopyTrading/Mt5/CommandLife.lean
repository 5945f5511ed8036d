import CopyTrading.Mt5.Books

/-!
# Mt5.CommandLife — commands settle once and run at most once

What a step does to the table of commands is said once (`RowStep`): rows are appended, or a report settles some,
appends some and delivers.  A settled row is never written again, each hand-over is an attempt of its row, and
the expert's memory is the end of the list of what it ran.
-/

namespace Copier.Mt5

open List Option CommandRow

/-! ### Rows -/

/-- A row that was just queued. -/
structure Fresh (now : ℚ) (i : ℕ) (r : CommandRow) : Prop where
  id : r.id = i
  status : r.status = .queued
  attempts : r.attempts = 0
  createdAt : r.createdAt = now

/-- Rows were queued. -/
def Appended (now : ℚ) (rows rows' : List CommandRow) : Prop :=
  ∃ new, rows' = rows ++ new ∧ ∀ i r, new[i]? = some r → Fresh now (rows.length + i) r

/-- The row is left alone, or settled. -/
def Settles (r r' : CommandRow) : Prop :=
  r' = r ∨ r.isOpen = true ∧ ∃ ok : Bool, r' = { r with status := if ok then .done else .failed }

section Rows

variable {now : ℚ} {account : ℕ} {rows rows' rows'' : List CommandRow} {r r' : CommandRow}

theorem Appended.refl (now : ℚ) (rows : List CommandRow) : Appended now rows rows :=
  ⟨[], (append_nil rows).symm, fun i r h => by simp at h⟩

theorem Appended.single (h : Fresh now rows.length r) : Appended now rows (rows ++ [r]) := by
  refine ⟨[r], rfl, fun i r' hr => ?_⟩
  cases i with
  | zero => exact (some.inj hr) ▸ h
  | succ i => simp at hr

theorem Appended.trans (h : Appended now rows rows') (h' : Appended now rows' rows'') :
    Appended now rows rows'' := by
  obtain ⟨new, rfl, hnew⟩ := h
  obtain ⟨new', rfl, hnew'⟩ := h'
  refine ⟨new ++ new', append_assoc _ _ _, fun i r hr => ?_⟩
  rcases Nat.lt_or_ge i new.length with hi | hi
  · rw [getElem?_append_left hi] at hr
    exact hnew i r hr
  · rw [getElem?_append_right hi] at hr
    have hf := hnew' (i - new.length) r hr
    rwa [length_append, add_assoc, Nat.add_sub_cancel' hi] at hf

theorem isOpen_settled (ok : Bool) :
    ({ r with status := if ok then .done else .failed } : CommandRow).isOpen = false := by
  cases ok <;> rfl

theorem Settles.trans {r₁ r₂ r₃ : CommandRow} (h : Settles r₁ r₂) (h' : Settles r₂ r₃) : Settles r₁ r₃ := by
  rcases h with rfl | ⟨ho, ok, rfl⟩
  · exact h'
  · rcases h' with rfl | ⟨ho', -⟩
    · exact .inr ⟨ho, ok, rfl⟩
    · rw [isOpen_settled] at ho'
      cases ho'

theorem settles_complete (id : ℕ) (ok : Bool) (r : CommandRow) : Settles r (r.complete account id ok) := by
  unfold complete
  by_cases h : r.id = id ∧ r.isOpen ∧ r.accountId = account
  · rw [if_pos h]
    exact .inr ⟨h.2.1, ok, rfl⟩
  · rw [if_neg h]
    exact .inl rfl

/-- Acknowledgements settle rows. -/
theorem applyAcks_rows (account : ℕ) (rows : List CommandRow) (ks : List Ack) :
    ∃ f, (applyAcks account rows ks).1 = rows.map f ∧ ∀ r, Settles r (f r) := by
  induction ks generalizing rows with
  | nil => exact ⟨id, (map_id _).symm, fun _ => .inl rfl⟩
  | cons k ks ih =>
    rw [applyAcks]
    split
    · exact ih rows
    · obtain ⟨f, hf, hs⟩ := ih (rows.map (complete account k.commandId k.result.ok))
      refine ⟨f ∘ complete account k.commandId k.result.ok, ?_, fun r => ?_⟩
      · rw [hf, List.map_map]
      · exact (settles_complete k.commandId k.result.ok r).trans (hs _)

theorem enqueueIntent_row {netting : Bool} {id org : ℕ} {symbol : String} {i : SlaveIntent}
    (h : enqueueIntent netting rows id org now symbol i = some r) : Fresh now id r := by
  cases enqueueIntent_cases h with
  | plain i payload hp | close i p x hopen => exact ⟨rfl, rfl, rfl, rfl⟩

theorem appended_enqueueOne (cfg : ServerConfig) (rows : List CommandRow) (i : SlaveIntent) :
    Appended now rows (enqueueOne cfg now rows i) := by
  unfold enqueueOne
  split
  · exact .refl now rows
  · next symbol _ =>
    cases h : enqueueIntent (cfg.netting i.slaveAccountId) rows rows.length cfg.org now symbol i with
    | none =>
      rw [toList_none, append_nil]
      exact .refl now rows
    | some r => exact .single (enqueueIntent_row h)

theorem appended_enqueue (cfg : ServerConfig) (is : List SlaveIntent) (rows : List CommandRow) :
    Appended now rows (is.foldl (enqueueOne cfg now) rows) := by
  induction is generalizing rows with
  | nil => exact .refl now rows
  | cons i is ih => exact (appended_enqueueOne cfg rows i).trans (ih _)

end Rows

/-! ### Reports -/

section Reports

variable {cfg : ServerConfig} {gates : Org} {now : ℚ} {account : ℕ} {report : FollowerReport} {s : Server}

theorem appended_send (cfg : ServerConfig) (now : ℚ) (s : Server) (x : Service × List SlaveIntent) :
    Appended now s.rows (s.send cfg now x).rows := appended_enqueue cfg x.2 s.rows

/-- A report queues rows. -/
theorem appended_booked : Appended now (applyAcks account s.rows report.acks).1
    (s.booked cfg gates now account report).rows := by
  refine Server.booked_rel (R := fun s s' => Appended now s.rows s'.rows) (fun s => .refl now s.rows)
    Appended.trans (fun {s s'} h => ?_) fun s _ _ => .refl now s.rows
  cases h with
  | writes st f _ => exact .refl now s.rows
  | fill fill => exact appended_send cfg now s _

/-- A row at the end of a poll. -/
def CommandRow.polled (account : ℕ) (now : ℚ) (r : CommandRow) : CommandRow :=
  (r.failStale account now).deliver account now

/-- **What a report does to the rows**: it settles some, queues some, and delivers. -/
theorem sync_rows (cfg : ServerConfig) (gates : Org) (now : ℚ) (account : ℕ) (s : Server)
    (report : FollowerReport) :
    ∃ f mid, (∀ r, Settles r (f r)) ∧ Appended now (s.rows.map f) mid ∧
      (s.sync cfg gates now account report).1.rows = mid.map (CommandRow.polled account now) ∧
      (s.sync cfg gates now account report).2 = (unexpired account now mid).filter fun r => r.due account now := by
  obtain ⟨f, hf, hs⟩ := applyAcks_rows account s.rows report.acks
  refine ⟨f, _, hs, hf ▸ appended_booked, ?_, rfl⟩
  simp only [Server.sync, Server.deliver, deliverable, unexpired, List.map_map]
  rfl

end Reports

/-! ### Ids and attempts -/

/-- Ids are places in the table. -/
def Numbered (rows : List CommandRow) : Prop := ∀ (i : ℕ) (r : CommandRow), rows[i]? = some r → r.id = i

section Numbered

variable {now : ℚ} {account : ℕ} {rows rows' : List CommandRow} {r : CommandRow}

section

variable (h : Numbered rows)
include h

theorem Numbered.map {f : CommandRow → CommandRow} (hf : ∀ r, (f r).id = r.id) :
    Numbered (rows.map f) := by
  intro i r hr
  rw [List.getElem?_map] at hr
  obtain ⟨r₀, hr₀, rfl⟩ := map_eq_some_iff.1 hr
  exact (hf r₀).trans (h i r₀ hr₀)

theorem Numbered.appended (ha : Appended now rows rows') : Numbered rows' := by
  obtain ⟨new, rfl, hnew⟩ := ha
  intro i r hr
  rcases Nat.lt_or_ge i rows.length with hi | hi
  · rw [getElem?_append_left hi] at hr
    exact h i r hr
  · rw [getElem?_append_right hi] at hr
    rw [(hnew _ r hr).id, Nat.add_sub_cancel' hi]

/-- An id is one row's. -/
theorem Numbered.unique {r' : CommandRow} (hr : r ∈ rows) (hr' : r' ∈ rows)
    (hid : r.id = r'.id) : r = r' := by
  obtain ⟨i, hi⟩ := mem_iff_getElem?.1 hr
  obtain ⟨j, hj⟩ := mem_iff_getElem?.1 hr'
  have hij : i = j := by rw [← h i r hi, hid, h j r' hj]
  rw [hij, hj] at hi
  exact (some.inj hi).symm

theorem Numbered.ids : rows.map CommandRow.id = List.range rows.length := by
  refine ext_getElem? fun i => ?_
  rw [List.getElem?_map]
  cases hr : rows[i]? with
  | none =>
    rw [getElem?_eq_none_iff] at hr
    simp [hr]
  | some r =>
    obtain ⟨hi, -⟩ := List.getElem?_eq_some_iff.1 hr
    simp [hi, h i r hr]

/-- Some of the rows, in order of their ids. -/
theorem Numbered.sorted (P : CommandRow → Bool) :
    ((rows.filter P).map CommandRow.id).Pairwise (· < ·) := by
  have hsub : ((rows.filter P).map CommandRow.id).Sublist (range rows.length) :=
    h.ids ▸ filter_sublist.map _
  exact pairwise_lt_range.sublist hsub

/-- An id is among some of the rows as often as its row is. -/
theorem Numbered.count_filter (P : CommandRow → Bool) (i : ℕ) :
    ((rows.filter P).map CommandRow.id).count i = if rows[i]?.any P then 1 else 0 := by
  have hnd : ((rows.filter P).map CommandRow.id).Nodup := (h.sorted P).imp ne_of_lt
  rw [hnd.count]
  refine if_congr ?_ rfl rfl
  rw [List.mem_map, Option.any_eq_true]
  constructor
  · rintro ⟨r, hr, rfl⟩
    obtain ⟨hr, hP⟩ := mem_filter.1 hr
    obtain ⟨j, hj⟩ := mem_iff_getElem?.1 hr
    exact ⟨r, (h j r hj).symm ▸ hj, hP⟩
  · rintro ⟨r, hr, hP⟩
    exact ⟨r, mem_filter.2 ⟨mem_of_getElem? hr, hP⟩, h i r hr⟩

end

end Numbered

section Polled

variable {now : ℚ} {account : ℕ} {r : CommandRow}

theorem polled_id : (r.polled account now).id = r.id :=
  (deliver_same _).id.trans (failStale_same r).id

theorem settles_id {r' : CommandRow} (h : Settles r r') : r'.id = r.id := by
  rcases h with rfl | ⟨-, ok, rfl⟩ <;> rfl

/-- **What a poll does to a row**: nothing; it expires it; it gives it up; or it hands it over. -/
inductive Polled (account : ℕ) (now : ℚ) (r : CommandRow) : CommandRow → Prop where
  | kept : r.stale account now = false → r.due account now = false → r.exhausted account now = false →
    Polled account now r r
  | expired : r.stale account now = true → Polled account now r { r with status := .failed }
  | gaveUp : r.stale account now = false → r.exhausted account now = true →
    Polled account now r { r with status := .failed }
  | handed : r.stale account now = false → r.due account now = true →
    Polled account now r { r with status := .sent, sentAt := some now, attempts := r.attempts + 1 }

theorem stale_open (h : r.stale account now = true) : r.isOpen = true := by
  simp only [stale, Bool.and_eq_true] at h
  exact h.1.2

theorem exhausted_open (h : r.exhausted account now = true) : r.isOpen = true := by
  simp only [exhausted, Bool.and_eq_true] at h
  simp only [isOpen, h.2.1, Bool.or_true]

theorem due_open (h : r.due account now = true) : r.isOpen = true := by
  simp only [due, Bool.and_eq_true] at h
  exact h.1.1.2

/-- An expired row is not due. -/
theorem due_failStale :
    (r.failStale account now).due account now = (!r.stale account now && r.due account now) := by
  unfold failStale
  cases r.stale account now with
  | false => rfl
  | true => simp [due, isOpen]

theorem polled_cases (account : ℕ) (now : ℚ) (r : CommandRow) : Polled account now r (r.polled account now) := by
  unfold polled failStale
  cases hs : r.stale account now with
  | true =>
    have hd : ({ r with status := .failed } : CommandRow).deliver account now = { r with status := .failed } := by
      simp [deliver, due, exhausted, isOpen]
    rw [if_pos rfl, hd]
    exact .expired hs
  | false =>
    rw [if_neg (by simp)]
    unfold deliver
    split_ifs with hd he
    · exact .handed hs hd
    · exact .gaveUp hs he
    · exact .kept hs (by simpa using hd) (by simpa using he)

/-- A poll's attempts at a row. -/
theorem polled_attempts :
    (r.polled account now).attempts =
      r.attempts + if (r.failStale account now).due account now then 1 else 0 := by
  rw [due_failStale]
  have h := polled_cases account now r
  generalize r.polled account now = r' at h ⊢
  cases h with
  | kept hs hd _ => simp [hd]
  | expired hs => simp [hs]
  | gaveUp hs he =>
    have hd : r.due account now = false := by
      simp only [exhausted, Bool.and_eq_true] at he
      simp [due, he.2]
    simp [hd]
  | handed hs hd => simp [hs, hd]

theorem polled_bounded (h : r.attempts ≤ maxAttempts ∧ (r.status = .queued → r.attempts = 0)) :
    (r.polled account now).attempts ≤ maxAttempts ∧
      ((r.polled account now).status = .queued → (r.polled account now).attempts = 0) := by
  have hp := polled_cases account now r
  generalize r.polled account now = r' at hp ⊢
  cases hp with
  | kept => exact h
  | expired | gaveUp => exact ⟨h.1, nofun⟩
  | handed hs hd =>
    refine ⟨?_, nofun⟩
    -- a queued row has not been handed over, a sent one has attempts left
    rcases Bool.or_eq_true_iff.1 (due_open hd) with hq | hsent
    · show r.attempts + 1 ≤ maxAttempts
      rw [h.2 (by simpa using hq)]
      decide
    · simp only [due, Bool.and_eq_true, hsent, Bool.true_and, Bool.not_eq_true',
        decide_eq_false_iff_not, not_le] at hd
      exact hd.2

/-- A poll of another account leaves the row alone. -/
theorem polled_foreign (h : r.accountId ≠ account) : r.polled account now = r := by
  have hs : r.failStale account now = r := if_neg (by simp [stale, h])
  rw [polled, hs, deliver, if_neg (by simp [due, h]),
    if_neg (by simp [exhausted, h])]

/-- A settled row is not written again. -/
theorem polled_settled (h : r.isOpen = false) : r.polled account now = r := by
  have hp := polled_cases account now r
  generalize r.polled account now = r' at hp ⊢
  cases hp with
  | kept => rfl
  | expired hs => rw [stale_open hs] at h; cases h
  | gaveUp _ he => rw [exhausted_open he] at h; cases h
  | handed _ hd => rw [due_open hd] at h; cases h

end Polled

/-! ### What a step does to the rows -/

namespace Exchange

variable {τ μ : Type} {cfg : ExchangeConfig τ μ} {s s' : Exchange τ} {a : ExchangeAction μ}

/-- The three things that can happen to the rows and the replies. -/
inductive RowStep (s s' : Exchange τ) : Prop where
  | queued : Appended s.clock s.server.rows s'.server.rows → s'.replies = s.replies → RowStep s s'
  | handled (account : ℕ) (f : CommandRow → CommandRow) (mid : List CommandRow) : (∀ r, Settles r (f r)) →
    Appended s.clock (s.server.rows.map f) mid →
    s'.server.rows = mid.map (CommandRow.polled account s.clock) →
    s'.replies = ((unexpired account s.clock mid).filter fun r => r.due account s.clock) :: s.replies →
    RowStep s s'

theorem rowStep_handle (gates : Org) (account : ℕ) (report : FollowerReport) (e : Expert) :
    RowStep s { s.handle cfg gates account report with expert := e } := by
  obtain ⟨f, mid, hf, hmid, hrows, hreply⟩ := sync_rows cfg.server gates s.clock account s.server report
  exact .handled account f mid hf hmid hrows (congrArg (· :: s.replies) hreply)

theorem rowStep (h : fire cfg a s = some s') : RowStep s s' := by
  cases a with
  | dispatch gates intents =>
    cases h
    exact .queued (appended_send _ _ _ _) rfl
  | remember levels | restart =>
    cases h
    exact .queued (.refl _ _) rfl
  | operate account payload =>
    cases h
    exact .queued (.single ⟨rfl, rfl, rfl, rfl⟩) rfl
  | tick now =>
    simp only [fire] at h
    split_ifs at h
    cases h
    exact .queued (.refl _ _) rfl
  | poll gates count fate =>
    simp only [fire] at h
    split_ifs at h
    cases fate with
    | delivered =>
      cases h
      exact rowStep_handle _ _ _ _
    | replyLost =>
      cases h
      exact rowStep_handle _ _ _ s.expert
    | stale handled reply =>
      simp only at h
      split_ifs at h with hr hh
      · cases h
        exact rowStep_handle _ _ _ _
      · cases h
        exact .queued (.refl _ _) rfl
  | report gates account report =>
    cases h
    exact rowStep_handle _ _ _ s.expert
  | execute =>
    simp only [fire] at h
    split at h
    · cases h
    · cases h
      unfold executeLine
      split
      · exact .queued (.refl _ _) rfl
      · exact .queued (.refl _ _) rfl
  | own m =>
    obtain ⟨t, -, rfl⟩ := map_eq_some_iff.1 h
    exact .queued (.refl _ _) rfl

/-! ### Hand-overs -/

/-- Each hand-over of a command is an attempt of its row. -/
structure Counted (s : Exchange τ) : Prop where
  numbered : Numbered s.server.rows
  tally : ∀ i, (s.replies.flatten.map CommandRow.id).count i =
    (s.server.rows[i]?.map CommandRow.attempts).getD 0
  bounded : ∀ r ∈ s.server.rows, r.attempts ≤ maxAttempts ∧ (r.status = .queued → r.attempts = 0)
  sorted : ∀ reply ∈ s.replies, (reply.map CommandRow.id).Pairwise (· < ·)

theorem counted_init (t : τ) : (init t).Counted where
  numbered := by simp [Numbered, init]
  tally := by simp [init]
  bounded := by simp [init]
  sorted := by simp [init]

/-- Queueing is no attempt. -/
theorem Counted.appended (h : s.Counted) (ha : Appended s.clock s.server.rows s'.server.rows)
    (hr : s'.replies = s.replies) : s'.Counted := by
  have hn := h.numbered.appended ha
  obtain ⟨new, hrows, hnew⟩ := ha
  refine ⟨hn, fun i => ?_, fun r hm => ?_, hr ▸ h.sorted⟩
  · rw [hr, h.tally i, hrows]
    rcases Nat.lt_or_ge i s.server.rows.length with hi | hi
    · rw [getElem?_append_left hi]
    · rw [getElem?_append_right hi, getElem?_eq_none hi]
      cases hx : new[i - s.server.rows.length]? with
      | none => rfl
      | some r => simp [(hnew _ r hx).attempts]
  · rw [hrows] at hm
    rcases mem_append.1 hm with hm | hm
    · exact h.bounded r hm
    · obtain ⟨j, hj⟩ := mem_iff_getElem?.1 hm
      rw [(hnew j r hj).attempts]
      exact ⟨by decide, fun _ => rfl⟩

/-- Neither are acknowledgements. -/
theorem Counted.settled (h : s.Counted) {f : CommandRow → CommandRow} (hf : ∀ r, Settles r (f r)) :
    ({ s with server := { s.server with rows := s.server.rows.map f } } : Exchange τ).Counted := by
  have hatt : ∀ r, (f r).attempts = r.attempts := by
    intro r
    rcases hf r with heq | ⟨-, ok, heq⟩ <;> rw [heq]
  refine ⟨h.numbered.map fun r => settles_id (hf r), fun i => ?_, fun r hm => ?_, h.sorted⟩
  · rw [h.tally i, List.getElem?_map, Option.map_map]
    exact congrArg (fun o => Option.getD o 0) (Option.map_congr fun r _ => (hatt r).symm)
  · obtain ⟨r₀, hr₀, rfl⟩ := List.mem_map.1 hm
    rw [hatt]
    refine ⟨(h.bounded r₀ hr₀).1, fun hq => (h.bounded r₀ hr₀).2 ?_⟩
    rcases hf r₀ with heq | ⟨-, ok, heq⟩
    · rwa [heq] at hq
    · rw [heq] at hq
      cases ok <;> cases hq

theorem Counted.step (h : s.Counted) (hf : fire cfg a s = some s') : s'.Counted := by
  cases rowStep hf with
  | queued ha hr => exact h.appended ha hr
  | handled account f mid hset ha hrows hreplies =>
    -- the same rows before the delivery
    have hmid : ({ s with server := { s.server with rows := mid } } : Exchange τ).Counted :=
      (h.settled hset).appended ha rfl
    have hnum : Numbered mid := hmid.numbered
    have hunexp : Numbered (unexpired account s.clock mid) := hnum.map fun r => (failStale_same r).id
    refine ⟨?_, fun i => ?_, ?_, ?_⟩
    · rw [hrows]
      exact hnum.map fun r => polled_id
    · have hold : (s.replies.flatten.map CommandRow.id).count i = (mid[i]?.map CommandRow.attempts).getD 0 :=
        hmid.tally i
      rw [hreplies, flatten_cons, map_append, count_append, hold, hunexp.count_filter, hrows,
        List.getElem?_map, unexpired, List.getElem?_map]
      cases mid[i]? with
      | none => rfl
      | some r => simp [polled_attempts, add_comm]
    · intro r hm
      rw [hrows] at hm
      obtain ⟨r₀, hr₀, rfl⟩ := List.mem_map.1 hm
      exact polled_bounded (hmid.bounded r₀ hr₀)
    · intro reply hm
      rw [hreplies] at hm
      rcases mem_cons.1 hm with rfl | hm
      · exact hunexp.sorted _
      · exact h.sorted reply hm

/-- **A settled row is never written again.** -/
theorem settled_step (hf : fire cfg a s = some s') {r : CommandRow} (hr : r ∈ s.server.rows)
    (ho : r.isOpen = false) : r ∈ s'.server.rows := by
  cases rowStep hf with
  | queued ha _ =>
    obtain ⟨new, hrows, -⟩ := ha
    rw [hrows]
    exact mem_append_left new hr
  | handled account f mid hset ha hrows _ =>
    obtain ⟨new, rfl, -⟩ := ha
    have hfr : f r = r := by
      rcases hset r with heq | ⟨ho', -⟩
      · exact heq
      · rw [ho] at ho'
        cases ho'
    rw [hrows]
    refine mem_map.2 ⟨r, mem_append_left new (mem_map.2 ⟨r, hr, hfr⟩), polled_settled ho⟩

/-! ### Executions -/

/-- Between the execution of an id and a later delivery, fewer than 500 others are executed. -/
def Recalled : ExchangeAction μ → Exchange τ → Prop
  | .execute, s => ∀ line ∈ s.expert.inbox.head?, line.id ∈ s.executed.map Ack.commandId →
      (s.executed.map Ack.commandId).idxOf line.id < ackFileLimit
  | _, _ => True

instance (a : ExchangeAction μ) (s : Exchange τ) : Decidable (Recalled a s) := by
  unfold Recalled
  split <;> infer_instance

/-- The expert remembers the last of what it ran, and ran nothing twice. -/
structure Once (s : Exchange τ) : Prop where
  done : s.expert.done = (s.executed.take ackFileLimit).reverse
  nodup : (s.executed.map Ack.commandId).Nodup

theorem once_init (t : τ) : (init t).Once := ⟨rfl, nodup_nil⟩

/-- What is remembered after one more. -/
theorem take_remembered (k : Ack) (ks : List Ack) :
    (if ackFileLimit ≤ (ks.take ackFileLimit).reverse.length then (ks.take ackFileLimit).reverse.tail
      else (ks.take ackFileLimit).reverse) ++ [k] = ((k :: ks).take ackFileLimit).reverse := by
  rw [length_reverse, length_take]
  have htake : (k :: ks).take ackFileLimit = k :: ks.take (ackFileLimit - 1) := rfl
  rw [htake, reverse_cons]
  refine congrArg (· ++ [k]) ?_
  split_ifs with hlen
  · have hmin : min ((ks.take ackFileLimit).length - 1) ackFileLimit = ackFileLimit - 1 := by
      rw [length_take]
      omega
    rw [tail_reverse, dropLast_eq_take, take_take, hmin]
  · rw [take_of_length_le (by omega), take_of_length_le (by omega)]

/-- An id that is not found in memory was not run. -/
theorem Once.not_ran (h : s.Once) {i : ℕ} (hnone : s.expert.findDone i = none)
    (hr : i ∈ s.executed.map Ack.commandId → (s.executed.map Ack.commandId).idxOf i < ackFileLimit) :
    i ∉ s.executed.map Ack.commandId := by
  intro hm
  -- the id is among the last 500, so it is found
  have hmem : i ∈ (s.executed.take ackFileLimit).map Ack.commandId := by
    rw [map_take, mem_take_iff_idxOf_lt hm]
    exact hr hm
  obtain ⟨k, hk, hid⟩ := List.mem_map.1 hmem
  rw [Expert.findDone, h.done, reverse_reverse, find?_eq_none] at hnone
  exact hnone k hk (by simpa using hid)

/-- A line is not run again while its id is remembered. -/
theorem Once.executeLine (h : s.Once) {line : CommandRow}
    (hr : line.id ∈ s.executed.map Ack.commandId →
      (s.executed.map Ack.commandId).idxOf line.id < ackFileLimit) : (s.executeLine cfg line).Once := by
  unfold Exchange.executeLine
  split
  · exact ⟨h.done, h.nodup⟩
  · next hnone =>
    constructor
    · show (if ackFileLimit ≤ s.expert.done.length then s.expert.done.tail else s.expert.done) ++ _ = _
      rw [h.done]
      exact take_remembered _ _
    · rw [map_cons, nodup_cons]
      exact ⟨h.not_ran hnone hr, h.nodup⟩

/-- Only the expert runs commands and remembers them. -/
theorem Once.of_eq (h : s.Once) (hd : s'.expert.done = s.expert.done) (he : s'.executed = s.executed) :
    s'.Once := by
  constructor
  · rw [hd, he]
    exact h.done
  · rw [he]
    exact h.nodup

theorem Once.step (h : s.Once) (ha : Recalled a s) (hf : fire cfg a s = some s') : s'.Once := by
  cases a with
  | execute =>
    simp only [fire] at hf
    split at hf
    · cases hf
    · next line rest hinbox =>
      cases hf
      have h' : ({ s with expert := { s.expert with inbox := rest } } : Exchange τ).Once := h.of_eq rfl rfl
      exact h'.executeLine (ha line (by simp [hinbox]))
  | poll gates count fate =>
    simp only [fire] at hf
    split_ifs at hf
    cases fate with
    | delivered | replyLost =>
      cases hf
      exact h.of_eq rfl rfl
    | stale handled reply =>
      simp only at hf
      split_ifs at hf with hr hh
      · cases hf
        exact h.of_eq rfl rfl
      · cases hf
        exact h.of_eq rfl rfl
  | tick now =>
    simp only [fire] at hf
    split_ifs at hf
    cases hf
    exact h.of_eq rfl rfl
  | own m =>
    obtain ⟨t, -, rfl⟩ := map_eq_some_iff.1 hf
    exact h.of_eq rfl rfl
  | dispatch | remember | operate | report | restart =>
    cases hf
    exact h.of_eq rfl rfl

/-! ### The life of a command -/

/-- What an acknowledgement leaves open is not what it names. -/
theorem isOpen_complete {account id : ℕ} {ok : Bool} {r : CommandRow} (h :
    (r.complete account id ok).isOpen = true) :
    r.complete account id ok = r ∧ ¬ (r.id = id ∧ r.accountId = account) := by
  unfold complete at *
  by_cases hc : r.id = id ∧ r.isOpen ∧ r.accountId = account
  · rw [if_pos hc] at h
    cases ok <;> cases h
  · rw [if_neg hc] at h ⊢
    exact ⟨rfl, fun hr => hc ⟨hr.1, h, hr.2⟩⟩

/-- After an acknowledgement no open row waits for its id, and none for an id that none waited for. -/
theorem closed_complete {account id : ℕ} {k : Ack} {rows : List CommandRow}
    (h : id = k.commandId ∨ ∀ r ∈ rows, r.id = id → r.accountId = account → r.isOpen = false) :
    ∀ r ∈ rows.map (complete account k.commandId k.result.ok), r.id = id → r.accountId = account →
      r.isOpen = false := by
  refine forall_mem_map.2 fun r hmem hid ha => Bool.eq_false_iff.2 fun ho => ?_
  obtain ⟨heq, hne⟩ := isOpen_complete ho
  rw [heq] at hid ha ho
  rcases h with rfl | h
  · exact hne ⟨hid, ha⟩
  · exact Bool.false_ne_true ((h r hmem hid ha).symm.trans ho)

/-- An acknowledgement that repeats one, or that no open row of the account waits for, is as none. -/
theorem applyAcks_idle {account : ℕ} {rows : List CommandRow} {k : Ack} {before : List Ack}
    (h : (∃ k' ∈ before, k'.commandId = k.commandId) ∨
      ∀ r ∈ rows, r.id = k.commandId → r.accountId = account → r.isOpen = false) (ks : List Ack) :
    applyAcks account rows (before ++ k :: ks) = applyAcks account rows (before ++ ks) := by
  induction before generalizing rows with
  | nil =>
    replace h := h.resolve_left (by simp)
    have hnone : rows.find? (awaits account k.commandId) = none := by
      refine find?_eq_none.2 fun r hr ha => ?_
      simp only [awaits, Bool.and_eq_true, decide_eq_true_eq] at ha
      rw [h r hr ha.1.1 ha.2] at ha
      cases ha.1.2
    rw [nil_append, applyAcks, hnone, nil_append]
  | cons k' before ih =>
    rw [cons_append, applyAcks, cons_append, applyAcks]
    cases hr : rows.find? (awaits account k'.commandId) with
    | none =>
      refine ih ?_
      rcases h with ⟨j, hj, hid⟩ | h
      · rcases mem_cons.1 hj with rfl | hj
        · refine .inr fun r hr' hrid ha => Bool.eq_false_iff.2 fun ho => ?_
          exact find?_eq_none.1 hr r hr' (by simp [awaits, hrid, hid, ha, ho])
        · exact .inl ⟨j, hj, hid⟩
      · exact .inr h
    | some r₀ =>
      dsimp only
      rw [ih]
      rcases h with ⟨j, hj, hid⟩ | h
      · rcases mem_cons.1 hj with rfl | hj
        · exact .inr (closed_complete (.inl hid.symm))
        · exact .inl ⟨j, hj, hid⟩
      · exact .inr (closed_complete (.inr h))

/-- **Commands settle once and run at most once.**  For every terminal, whatever is lost, answered late, sent
again or restarted: a command that is done or failed in some state is so, unchanged, ever after; the terminal
runs no id twice; a reply has its commands in the order of their ids; no command is handed over more than
`MAX_ATTEMPTS` times; and whatever the table is, an acknowledgement of an unknown, foreign or settled id, or of one
that the same report has acknowledged before, changes no row and has no outcome. -/
theorem commands_settle_once {t : τ} {s s' : Exchange τ} (h : Machine.Run (fire cfg) Recalled (init t) s)
    (h' : Machine.Run (fire cfg) Recalled s s') :
    (∀ r ∈ s.server.rows, r.isOpen = false →
        r ∈ s'.server.rows ∧ ∀ r' ∈ s'.server.rows, r'.id = r.id → r' = r) ∧
      (s'.executed.map Ack.commandId).Nodup ∧
      (∀ reply ∈ s'.replies, (reply.map CommandRow.id).Pairwise (· < ·)) ∧
      (∀ i, (s'.replies.flatten.map CommandRow.id).count i ≤ maxAttempts) ∧
      ∀ account rows before k ks,
        ((∃ k' ∈ before, k'.commandId = k.commandId) ∨
          ∀ r ∈ rows, r.id = k.commandId → r.accountId = account → r.isOpen = false) →
        applyAcks account rows (before ++ k :: ks) = applyAcks account rows (before ++ ks) := by
  have hinv : s.Counted ∧ s.Once :=
    h.invariant (P := fun s => s.Counted ∧ s.Once) ⟨counted_init t, once_init t⟩
      fun _ _ _ ha hi hf => ⟨hi.1.step hf, hi.2.step ha hf⟩
  obtain ⟨hc, ho⟩ : s'.Counted ∧ s'.Once :=
    h'.invariant (P := fun s => s.Counted ∧ s.Once) hinv fun _ _ _ ha hi hf => ⟨hi.1.step hf, hi.2.step ha hf⟩
  refine ⟨fun r hr hopen => ?_, ho.nodup, hc.sorted, fun i => ?_, fun account rows before k ks hk =>
    applyAcks_idle hk ks⟩
  · have hmem : r ∈ s'.server.rows :=
      h'.invariant (P := fun s => r ∈ s.server.rows) hr fun _ _ _ _ hi hf => settled_step hf hi hopen
    exact ⟨hmem, fun r' hr' hid => hc.numbered.unique hr' hmem hid⟩
  · rw [hc.tally i]
    cases hr : s'.server.rows[i]? with
    | none => exact Nat.zero_le _
    | some r => exact (hc.bounded r (mem_of_getElem? hr)).1

/-- A terminal that fills every command as position 7. -/
def sampleTerminal : Terminal Unit Unit where
  exec _ t := (t, ⟨true, some 7, none, none, none⟩)
  move _ t := some t
  positions _ := []
  deals _ := []

/-- Account 2, a netting follower. -/
def sampleExchange : ExchangeConfig Unit Unit :=
  ⟨⟨1, fun _ => true, fun _ => some fun _ => some "EURUSD"⟩, 2, sampleTerminal⟩

/-- The copy of master position `p`. -/
def sampleOpen (p volume : ℕ) (side : Side) : SlaveIntent :=
  .openMarket ⟨2, p, 1, side, volume, .unset, "", "EURUSD", none⟩

/-- An open is executed, the expert restarts and gets it again, and its acknowledgement comes twice. -/
theorem commands_settle_once_sample :
    ∃ s : Exchange Unit, Machine.Run (fire sampleExchange) Recalled (init ()) s ∧
      s.server.rows.map CommandRow.status = [.done] ∧ s.replies.length = 4 ∧
      (s.executed.map Ack.commandId).Nodup ∧ (s.replies.flatten.map CommandRow.id).count 0 ≤ 3 := by
  refine Machine.exists_run_and₂ [.dispatch .live [sampleOpen 5 100 .buy], .poll .live 0 .delivered,
    .execute, .restart,
    .tick 11, .poll .live 0 .delivered, .execute, .poll .live 0 .replyLost, .poll .live 0 .delivered] (init ()) ?_
  intro s hr _ _
  obtain ⟨-, hnodup, -, hcount, -⟩ := commands_settle_once hr (Machine.Run.refl s)
  exact ⟨hnodup, hcount 0⟩

end Exchange

end Copier.Mt5
