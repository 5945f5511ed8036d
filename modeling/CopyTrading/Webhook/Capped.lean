import CopyTrading.Webhook.Receiver
import CopyTrading.Webhook.Verdicts

/-!
# Webhook.Capped — at most one order a signal, and no more than the caps allow

The lock orders the commits of the receipts.  A receipt that ends as accepted or unknown was counted by every
delivery that committed after it, whichever of the two began first; so of any deliveries inside a window, the one
that committed last has seen all the others.
-/

namespace Webhook

open List Option Function

variable {w : Workspace}

open Calls

/-! ### Sizes -/

/-- The size is positive and within the workspace's cap and the hard one. -/
def Within (w : Workspace) (lots : ℚ) : Prop := ∃ cap, lotCap w.maxLots = some cap ∧ 0 < lots ∧ lots ≤ cap

section Sizes

variable {w : Workspace} {body : Json}

theorem readLots_within {body : List (String × Json)} {missing : String} {lots : ℚ}
    (h : readLots w.py body w.maxLots missing = .ok lots) : Within w lots := by
  obtain ⟨-, -, h⟩ := bind_ok h
  obtain ⟨value, -, h⟩ := bind_ok h
  obtain ⟨x, hpos, h⟩ := bind_ok h
  obtain ⟨cap, hcap, h⟩ := bind_ok h
  obtain ⟨_, hle, h⟩ := bind_ok h
  obtain rfl := Except.ok.inj h
  have hx : 0 < x := by
    unfold positive at hpos
    split at hpos
    · split_ifs at hpos with hp
      cases hpos
      exact hp
    · cases hpos
  have hcap' : lotCap w.maxLots = some cap := by
    unfold orRefuse at hcap
    split at hcap
    · next c hc => rw [hc, Except.ok.inj hcap]
    · cases hcap
  refine ⟨cap, hcap', hx, ?_⟩
  unfold refuseIf at hle
  split_ifs at hle with hlt
  exact not_lt.1 hlt

/-- A job that places an order has a size, and it is within the caps. -/
def Sized (w : Workspace) : Job → Prop
  | .alert a => a.action = .buy ∨ a.action = .sell → ∃ lots, a.lots = some lots ∧ Within w lots
  | .bridge vt => ∃ lots, vt.lots = some lots ∧ Within w lots

/-- **What is read off a body is sized.** -/
theorem read_sized {job : Job} (h : Receiver.read w body = some job) : Sized w job := by
  obtain ⟨fields, rfl, ⟨a, ha, hjob⟩ | ⟨vt, hvt, hrole, hjob⟩⟩ := Receiver.read_cases h
  · have hsized : Sized w (.alert a) := fun hb => by
      obtain ⟨lots, missing, hl, hread⟩ := (parseAlert_parts ha).2.2 hb
      exact ⟨lots, hl, readLots_within hread⟩
    rcases hjob with rfl | ⟨_, _, -, rfl⟩ <;> exact hsized
  · obtain ⟨lots, missing, hl, hread⟩ := (parseVtAlert_parts hvt).2.2 hrole
    rcases hjob with rfl | ⟨_, _, -, rfl⟩ <;> exact ⟨lots, hl, readLots_within hread⟩

end Sizes

/-! ### The calls of a job -/

/-- A receipt that is counted keeps its fingerprint. -/
def Verdict.Sane (v : Verdict) : Prop := v.outcome = .accepted ∨ v.outcome = .unknown → v.clearFp = false

/-- The receipt stays counted. -/
def Verdict.Keeps (v : Verdict) : Prop := v.clearFp = false ∧ (v.outcome = .accepted ∨ v.outcome = .unknown)

theorem verdict_sane (f : Failure) : f.verdict.Sane := by
  cases f with
  | unknown text => exact fun _ => rfl
  | down text | rejected status reason => rintro (h | h) <;> exact absurd h nofun

theorem doneVerdict_sane {α : Type} (nothing : ReceiptOutcome) (reason : String) (r : Except Failure (List α)) :
    (doneVerdict nothing reason r).Sane := by
  cases r with
  | error f => exact verdict_sane f
  | ok items =>
    intro _
    cases items <;> rfl

theorem placedVerdict_sane (r : Except Failure Unit) : (placedVerdict r).Sane := by
  cases r with
  | error f => exact verdict_sane f
  | ok u => exact fun _ => rfl

def Request.isOrder : Request → Bool
  | .order _ => true
  | _ => false

theorem only_request {q : Request} (h : q.isOrder = false) : (request q).Only (·.isOrder = false) := only_ask h

theorem close_only (master : ℕ) (symbol : String) : (close master symbol).Only (·.isOrder = false) := by
  refine Only.attempt ?_ fun positions => only_each (P := fun q : Request => q.isOrder = false)
    (fun _ => rfl) positions
  refine (only_request rfl).attempt fun reply => ?_
  split
  · exact Only.attempt (only_ask rfl) fun _ => (only_request rfl).attempt fun _ => trivial
  · trivial

theorem cancel_only (master : ℕ) (symbol : String) : (cancel master symbol).Only (·.isOrder = false) := by
  refine Only.attempt ?_ fun orders => only_each (P := fun q : Request => q.isOrder = false) (fun _ => rfl) orders
  exact (only_request rfl).attempt fun _ => trivial

/-- What the calls of a job come to, as far as orders go. -/
structure OrderSpec (w : Workspace) (log : List (Request × Outcome)) (v : Verdict) : Prop where
  sane : v.Sane
  /-- One order at most. -/
  once : (log.filter fun x => x.1.isOrder).length ≤ 1
  sized : ∀ o x, (Request.order o, x) ∈ log → Within w o.lots
  kept : ∀ o x, (Request.order o, x) ∈ log → x.accepted = true → v.Keeps

theorem orderSpec_none {log : List (Request × Outcome)} {v : Verdict}
    (hno : ∀ x ∈ log, x.1.isOrder = false) (hv : v.Sane) : OrderSpec w log v := by
  refine ⟨hv, ?_, fun o x hx => absurd (hno _ hx) nofun, fun o x hx => absurd (hno _ hx) nofun⟩
  rw [filter_eq_nil_iff.2 fun x hx => by rw [hno x hx]; exact nofun]
  exact Nat.zero_le 1

theorem orderSpec_place {signal : Signal} (hlots : Within w signal.order.lots) (maxOpen : ℕ)
    (answers : ℕ → Outcome) :
    let r := ((place maxOpen signal).bind fun r => .done (placedVerdict r)).run answers
    OrderSpec w r.1 r.2 := by
  intro r
  have hr : r = (((place maxOpen signal).run answers).1,
    placedVerdict ((place maxOpen signal).run answers).2) := by
    simp only [r, run_bind, run_done, append_nil]
  have hread : ∀ x ∈ [(Request.state, answers 0)], x.1.isOrder = false := by
    intro x hx
    rw [mem_singleton.1 hx]
    rfl
  rcases run_place maxOpen signal answers with ⟨f, -, hrun⟩ | ⟨-, reason, -, hrun⟩ | ⟨reply, -, -, hrun⟩
  · rw [hr, hrun]
    exact orderSpec_none hread (placedVerdict_sane _)
  · rw [hr, hrun]
    exact orderSpec_none hread (placedVerdict_sane _)
  · rw [hr, hrun]
    have hmem : ∀ o x, (Request.order o, x) ∈ [(Request.state, answers 0), (.order signal.order, answers 1)] →
        o = signal.order ∧ x = answers 1 := by
      intro o x hx
      simpa only [mem_cons, Prod.mk.injEq, reduceCtorEq, false_and, Request.order.injEq, not_mem_nil,
        or_false, false_or] using hx
    refine ⟨placedVerdict_sane _, le_rfl, fun o x hx => (hmem o x hx).1 ▸ hlots, fun o x hx hacc => ?_⟩
    obtain ⟨-, rfl⟩ := hmem o x hx
    cases h1 : copier (answers 1) with
    | ok reply' => exact ⟨rfl, .inl rfl⟩
    | error f =>
      -- a refusal and a call that was not made are no acceptance
      have hfree : f.verdict.clearFp ≠ true := fun hc => absurd ((copier_error h1).1 hc) (by simp [hacc])
      cases f with
      | unknown text => exact ⟨rfl, .inr rfl⟩
      | down text | rejected status reason => cases hfree rfl

/-- **Every job's calls**: one order at most, sized, and counted if the copier accepted it. -/
theorem orderSpec_calls {job : Job} (h : Sized w job) (s : Receiver) (snapshot : Option VTSnapshot)
    (answers : ℕ → Outcome) :
    OrderSpec w ((s.calls w snapshot job).run answers).1 ((s.calls w snapshot job).run answers).2 := by
  cases job with
  | alert a =>
    show OrderSpec w ((act w.master w.maxOpen a).run answers).1 ((act w.master w.maxOpen a).run answers).2
    cases ha : a.action with
    | close =>
      simp only [act, ha, run_bind, run_done, append_nil]
      exact orderSpec_none (fun x hx => (close_only w.master a.symbol).mem hx) (doneVerdict_sane _ _ _)
    | cancel =>
      simp only [act, ha, run_bind, run_done, append_nil]
      exact orderSpec_none (fun x hx => (cancel_only w.master a.symbol).mem hx) (doneVerdict_sane _ _ _)
    | buy =>
      obtain ⟨lots, hl, hw⟩ := h (.inl ha)
      simp only [act, ha, hl, getD_some]
      exact orderSpec_place hw w.maxOpen answers
    | sell =>
      obtain ⟨lots, hl, hw⟩ := h (.inr ha)
      simp only [act, ha, hl, getD_some]
      exact orderSpec_place hw w.maxOpen answers
  | bridge vt =>
    obtain ⟨lots, hl, hw⟩ := h
    simp only [Receiver.calls]
    cases checkGate w.py snapshot vt w.allowedTimeframes s.clock with
    | error reason =>
      refine orderSpec_none (forall_mem_nil _) ?_
      rintro (he | he) <;> cases he
    | ok u =>
      simp only [hl, getD_some]
      exact orderSpec_place hw w.maxOpen answers

/-! ### The receipts in commit order -/

/-- Counted, by a delivery that held the lock. -/
def Receipt.live (r : Receipt) : Bool := r.counted && r.fingerprint.isSome

/-- No live receipt has the fingerprint, from `receivedAt` less the window on. -/
def Fresh (f : Fingerprint) (receivedAt : ℚ) (rs : List Receipt) : Prop :=
  ∀ r ∈ rs, r.counted = true → r.fingerprint = some f → r.receivedAt ≤ receivedAt - dedupWindow

/-- Live, and received after `t`. -/
def Receipt.liveAfter (t : ℚ) (r : Receipt) : Bool := r.live && decide (t < r.receivedAt)

/-- Live, and received in the minute from `t` on. -/
def Receipt.liveWithin (t : ℚ) (r : Receipt) : Bool :=
  r.live && decide (t ≤ r.receivedAt ∧ r.receivedAt < t + minute)

/-- Fewer than `cap` live receipts, from `receivedAt` less a minute on. -/
def Room (cap : ℕ) (receivedAt : ℚ) (rs : List Receipt) : Prop :=
  rs.countP (Receipt.liveAfter (receivedAt - minute)) < cap

/-- Every receipt found its fingerprint unused and room in its minute, among those committed before. -/
def Ordered (cap : ℕ) : List Receipt → Prop
  | [] => True
  | r :: rs => (∀ f, r.fingerprint = some f → Fresh f r.receivedAt rs ∧ Room cap r.receivedAt rs) ∧ Ordered cap rs

/-- What becomes of a row: it may lose its fingerprint or its place in the count. -/
structure Weaker (r r' : Receipt) : Prop where
  id : r'.id = r.id
  receivedAt : r'.receivedAt = r.receivedAt
  fingerprint : ∀ f, r'.fingerprint = some f → r.fingerprint = some f
  live : r'.live = true → r.live = true

theorem live_of {r : Receipt} {f : Fingerprint} (hc : r.counted = true) (hf : r.fingerprint = some f) :
    r.live = true := by
  rw [Receipt.live, hc, hf]
  rfl

section Ordered

variable {cap : ℕ} {rs : List Receipt} {g : Receipt → Receipt} {f : Fingerprint} {t : ℚ}
  {r : Receipt}

theorem Fresh.weaker (h : Fresh f t rs) (hg : ∀ r ∈ rs, Weaker r (g r)) : Fresh f t (rs.map g) := by
  intro r' hr' hc hf
  obtain ⟨r, hr, rfl⟩ := mem_map.1 hr'
  have hw := hg r hr
  have hlive := hw.live (live_of hc hf)
  rw [hw.receivedAt]
  rw [Receipt.live, Bool.and_eq_true] at hlive
  exact h r hr hlive.1 (hw.fingerprint f hf)

theorem Room.weaker (h : Room cap t rs) (hg : ∀ r ∈ rs, Weaker r (g r)) : Room cap t (rs.map g) := by
  refine lt_of_le_of_lt ?_ h
  rw [countP_map]
  refine countP_mono_left fun r hr hx => ?_
  simp only [comp_apply, Receipt.liveAfter, Bool.and_eq_true, decide_eq_true_eq] at hx ⊢
  rw [(hg r hr).receivedAt] at hx
  exact ⟨(hg r hr).live hx.1, hx.2⟩

theorem Ordered.weaker (h : Ordered cap rs) (hg : ∀ r ∈ rs, Weaker r (g r)) : Ordered cap (rs.map g) := by
  induction rs with
  | nil => trivial
  | cons r rs ih =>
    have hw := hg r mem_cons_self
    have hrest : ∀ r ∈ rs, Weaker r (g r) := fun r hr => hg r (mem_cons_of_mem _ hr)
    refine ⟨fun f hf => ?_, ih h.2 hrest⟩
    obtain ⟨hfresh, hroom⟩ := h.1 f (hw.fingerprint f hf)
    rw [hw.receivedAt]
    exact ⟨hfresh.weaker hrest, hroom.weaker hrest⟩

/-- A row without a fingerprint changes nothing of this. -/
theorem Fresh.cons_none (h : Fresh f t rs) (hr : r.fingerprint = none) : Fresh f t (r :: rs) := by
  intro x hx hc hf
  rcases mem_cons.1 hx with rfl | hx
  · rw [hr] at hf
    cases hf
  · exact h x hx hc hf

theorem Room.cons_none (h : Room cap t rs) (hr : r.fingerprint = none) : Room cap t (r :: rs) := by
  unfold Room
  rw [countP_cons_of_neg (by simp [Receipt.liveAfter, Receipt.live, hr])]
  exact h

theorem Ordered.cons_none (h : Ordered cap rs) (hr : r.fingerprint = none) : Ordered cap (r :: rs) := by
  refine ⟨fun f hf => ?_, h⟩
  rw [hr] at hf
  cases hf

/-- Two live receipts of one fingerprint are a window apart. -/
theorem Ordered.apart (h : Ordered cap rs) {r' : Receipt} (hr : r ∈ rs) (hr' : r' ∈ rs)
    (hne : r ≠ r') (hc : r.counted = true) (hc' : r'.counted = true) (hf : r.fingerprint = some f)
    (hf' : r'.fingerprint = some f) : dedupWindow ≤ |r.receivedAt - r'.receivedAt| := by
  induction rs with
  | nil => cases hr
  | cons x rs ih =>
    rcases mem_cons.1 hr with rfl | hmem
    · rcases mem_cons.1 hr' with rfl | hmem'
      · cases hne rfl
      · have hle := (h.1 f hf).1 r' hmem' hc' hf'
        refine le_trans ?_ (le_abs_self _)
        linarith
    · rcases mem_cons.1 hr' with rfl | hmem'
      · have hle := (h.1 f hf').1 r hmem hc hf
        refine le_trans ?_ (neg_le_abs _)
        linarith
      · exact ih h.2 hmem hmem'

/-- **The window**: of the live receipts inside a minute, the one that was committed last has counted the
others. -/
theorem Ordered.window (h : Ordered cap rs) (t : ℚ) : rs.countP (Receipt.liveWithin t) ≤ cap := by
  induction rs with
  | nil => exact Nat.zero_le cap
  | cons r rs ih =>
    by_cases hr : r.liveWithin t = true
    · rw [countP_cons_of_pos hr]
      simp only [Receipt.liveWithin, Bool.and_eq_true, decide_eq_true_eq] at hr
      obtain ⟨hlive, -, hhi⟩ := hr
      obtain ⟨f, hf⟩ : ∃ f, r.fingerprint = some f := by
        rw [Receipt.live, Bool.and_eq_true] at hlive
        exact isSome_iff_exists.1 hlive.2
      refine lt_of_le_of_lt ?_ (h.1 f hf).2
      refine countP_mono_left fun x _ hx => ?_
      simp only [Receipt.liveWithin, Receipt.liveAfter, Bool.and_eq_true, decide_eq_true_eq] at hx ⊢
      refine ⟨hx.1, ?_⟩
      have hlo := hx.2.1
      linarith
    · rw [countP_cons_of_neg hr]
      exact ih h.2

end Ordered

/-! ### The deliveries -/

/-- The receipt that a delivery has inserted. -/
def Phase.receiptId : Phase → Option ℕ
  | .inserted id => some id
  | .refusing id _ => some id
  | .acting id => some id
  | .judged id _ => some id
  | _ => none

/-- The provisional row. -/
def Delivery.provisional (d : Delivery) (id : ℕ) : Receipt :=
  ⟨id, d.receivedAt, .accepted, some d.job.fingerprint⟩

namespace Receiver

/-- The id is taken and no committed row has it. -/
def Unused (s : Receiver) (id : ℕ) : Prop := id < s.nextId ∧ ∀ r ∈ s.receipts, r.id ≠ id

/-- What the phase of a delivery says of the table. -/
def Fits (w : Workspace) (s : Receiver) (i : ℕ) (d : Delivery) : Prop :=
  match d.phase with
  | .waiting => True
  | .locked => s.lock = some i
  | .unique => s.lock = some i ∧ Fresh d.job.fingerprint d.receivedAt s.receipts
  | .admitted =>
    s.lock = some i ∧ Fresh d.job.fingerprint d.receivedAt s.receipts ∧ Room w.maxPerMinute d.receivedAt s.receipts
  | .inserted id =>
    s.lock = some i ∧ Fresh d.job.fingerprint d.receivedAt s.receipts ∧
      Room w.maxPerMinute d.receivedAt s.receipts ∧ s.Unused id
  | .refusing id _ => s.lock = some i ∧ s.Unused id
  | .acting id => d.provisional id ∈ s.receipts ∧ ∀ x ∈ s.sent, x.receipt ≠ id
  | .judged id v =>
    d.provisional id ∈ s.receipts ∧ v.Sane ∧ ∀ x ∈ s.sent, x.receipt = id → x.outcome.accepted = true → v.Keeps
  | .done => True

/-- What is recorded of an order that was written. -/
def Recorded (rs : List Receipt) (x : Sent) : Prop :=
  ∃ r ∈ rs, r.id = x.receipt ∧ r.receivedAt = x.receivedAt ∧
    (r.counted = true → r.fingerprint = some x.fingerprint) ∧ (x.outcome.accepted = true → r.counted = true)

/-- What holds between any two statements. -/
structure Inv (w : Workspace) (s : Receiver) : Prop where
  nodup : (s.receipts.map Receipt.id).Nodup
  below : ∀ r ∈ s.receipts, r.id < s.nextId
  ordered : Ordered w.maxPerMinute s.receipts
  sized : ∀ i d, s.deliveries i = some d → Sized w d.job
  fits : ∀ i d, s.deliveries i = some d → s.Fits w i d
  apart : ∀ i j d e id, s.deliveries i = some d → s.deliveries j = some e → d.phase.receiptId = some id →
    e.phase.receiptId = some id → i = j
  recorded : ∀ x ∈ s.sent, Recorded s.receipts x
  once : (s.sent.map Sent.receipt).Nodup
  within : ∀ x ∈ s.sent, Within w x.order.lots

/-- The rows and the orders, whatever the deliveries are at. -/
structure Books (w : Workspace) (s : Receiver) : Prop where
  nodup : (s.receipts.map Receipt.id).Nodup
  below : ∀ r ∈ s.receipts, r.id < s.nextId
  ordered : Ordered w.maxPerMinute s.receipts
  recorded : ∀ x ∈ s.sent, Recorded s.receipts x
  once : (s.sent.map Sent.receipt).Nodup
  within : ∀ x ∈ s.sent, Within w x.order.lots

theorem Inv.books {s s' : Receiver} (h : s.Inv w) (hrows : s'.receipts = s.receipts)
    (hsent : s'.sent = s.sent) (hnext : s.nextId ≤ s'.nextId) : s'.Books w := by
  refine ⟨?_, ?_, ?_, ?_, ?_, ?_⟩
  · rw [hrows]
    exact h.nodup
  · rw [hrows]
    exact fun r hr => lt_of_lt_of_le (h.below r hr) hnext
  · rw [hrows]
    exact h.ordered
  · rw [hrows, hsent]
    exact h.recorded
  · rw [hsent]
    exact h.once
  · rw [hsent]
    exact h.within

/-- What a step of the delivery `i`, with the receipt `own`, leaves to the others. -/
structure Frame (i own : Option ℕ) (s s' : Receiver) : Prop where
  others : ∀ j, some j ≠ i → s'.deliveries j = s.deliveries j
  lock : ∀ j, some j ≠ i → s.lock = some j → s'.lock = some j ∧
    (∀ f t, Fresh f t s.receipts → Fresh f t s'.receipts) ∧ ∀ c t, Room c t s.receipts → Room c t s'.receipts
  next : s.nextId ≤ s'.nextId
  rows : ∀ r ∈ s.receipts, own ≠ some r.id → r ∈ s'.receipts
  ids : ∀ r' ∈ s'.receipts, (∃ r ∈ s.receipts, r.id = r'.id) ∨ own = some r'.id ∨ s.nextId ≤ r'.id
  sent : ∀ x ∈ s'.sent, x ∈ s.sent ∨ own = some x.receipt

section Steps

variable {w : Workspace} {s s' : Receiver} {i own : Option ℕ} {id k : ℕ} {d : Delivery}
  {phase : Phase} {r : Receipt} {v : Verdict}

theorem Frame.unused (h : Frame i own s s') (hu : s.Unused id) (hne : own ≠ some id) : s'.Unused id := by
  refine ⟨lt_of_lt_of_le hu.1 h.next, fun r' hr' he => ?_⟩
  rcases h.ids r' hr' with ⟨r, hr, hid⟩ | hid | hid
  · exact hu.2 r hr (hid.trans he)
  · exact hne (hid.trans (congrArg some he))
  · have := hu.1
    omega

/-- The other deliveries still fit. -/
theorem Frame.fits (h : Frame i own s s') {j : ℕ} (hj : some j ≠ i) (hd : s.Fits w j d)
    (hne : ∀ id, d.phase.receiptId = some id → own ≠ some id) : s'.Fits w j d := by
  obtain ⟨job, t, p⟩ := d
  cases p with
  | waiting | done => trivial
  | locked => exact (h.lock j hj hd).1
  | unique =>
    obtain ⟨hl, hf, -⟩ := h.lock j hj hd.1
    exact ⟨hl, hf _ _ hd.2⟩
  | admitted =>
    obtain ⟨hl, hf, hr⟩ := h.lock j hj hd.1
    exact ⟨hl, hf _ _ hd.2.1, hr _ _ hd.2.2⟩
  | inserted id =>
    obtain ⟨hl, hf, hr⟩ := h.lock j hj hd.1
    exact ⟨hl, hf _ _ hd.2.1, hr _ _ hd.2.2.1, h.unused hd.2.2.2 (hne id rfl)⟩
  | refusing id outcome => exact ⟨(h.lock j hj hd.1).1, h.unused hd.2 (hne id rfl)⟩
  | acting id =>
    refine ⟨h.rows _ hd.1 (hne id rfl), fun x hx he => ?_⟩
    rcases h.sent x hx with hx | hx
    · exact hd.2 x hx he
    · exact hne id rfl (hx.trans (congrArg some he))
  | judged id v =>
    refine ⟨h.rows _ hd.1 (hne id rfl), hd.2.1, fun x hx he => ?_⟩
    rcases h.sent x hx with hx | hx
    · exact hd.2.2 x hx he
    · exact absurd (hx.trans (congrArg some he)) (hne id rfl)

/-- A step of the delivery `k` that changes no row. -/
theorem frame_rows {o : Option Delivery} (hs' : s'.deliveries = update s.deliveries k o)
    (hrows : s'.receipts = s.receipts) (hlock : ∀ j, j ≠ k → s.lock = some j → s'.lock = some j)
    (hnext : s.nextId ≤ s'.nextId) (hsent : ∀ x ∈ s'.sent, x ∈ s.sent ∨ own = some x.receipt) :
    Frame (some k) own s s' := by
  refine ⟨fun j hj => ?_, fun j hj hl => ?_, hnext, ?_, ?_, hsent⟩
  · rw [hs', update_of_ne fun e => hj (congrArg some e)]
  · rw [hrows]
    exact ⟨hlock j (fun e => hj (congrArg some e)) hl, fun _ _ h => h, fun _ _ h => h⟩
  · rw [hrows]
    exact fun r hr _ => hr
  · rw [hrows]
    exact fun r hr => .inl ⟨r, hr, rfl⟩

theorem Inv.used (h : s.Inv w) {j : ℕ} {e : Delivery} (he : s.deliveries j = some e)
    (hr : e.phase.receiptId = some id) : id < s.nextId := by
  have hfit := h.fits j e he
  obtain ⟨job, t, p⟩ := e
  cases p with
  | inserted id' =>
    cases hr
    exact hfit.2.2.2.1
  | refusing id' outcome =>
    cases hr
    exact hfit.2.1
  | acting id' | judged id' v =>
    cases hr
    exact h.below _ hfit.1
  | _ => cases hr

/-- A step that changes one delivery. -/
theorem Inv.change (own : Option ℕ) {o : Option Delivery} (h : s.Inv w)
    (hs' : s'.deliveries = Function.update s.deliveries k o) (hframe : Frame (some k) own s s')
    (ho : ∀ e, o = some e → Sized w e.job ∧ s'.Fits w k e ∧ ∀ id, e.phase.receiptId = some id → own = some id)
    (hne : ∀ j e id, j ≠ k → s.deliveries j = some e → e.phase.receiptId = some id → own ≠ some id)
    (hb : s'.Books w) : s'.Inv w := by
  have hcases : ∀ j e, s'.deliveries j = some e → j = k ∧ o = some e ∨ j ≠ k ∧ s.deliveries j = some e := by
    intro j e he
    rw [hs', update_apply] at he
    split_ifs at he with hj
    · exact .inl ⟨hj, he⟩
    · exact .inr ⟨hj, he⟩
  refine ⟨hb.nodup, hb.below, hb.ordered, ?_, ?_, ?_, hb.recorded, hb.once, hb.within⟩
  · intro j e he
    rcases hcases j e he with ⟨-, he⟩ | ⟨-, he⟩
    · exact (ho e he).1
    · exact h.sized j e he
  · intro j e he
    rcases hcases j e he with ⟨rfl, he⟩ | ⟨hj, he⟩
    · exact (ho e he).2.1
    · exact hframe.fits (fun hc => hj (some.inj hc)) (h.fits j e he) fun id hr => hne j e id hj he hr
  · intro j j' e e' id he he' hr hr'
    rcases hcases j e he with ⟨rfl, he⟩ | ⟨hj, he⟩ <;> rcases hcases j' e' he' with ⟨rfl, he'⟩ | ⟨hj', he'⟩
    · rfl
    · exact absurd ((ho e he).2.2 id hr) (hne j' e' id hj' he' hr')
    · exact absurd ((ho e' he').2.2 id hr') (hne j e id hj he hr)
    · exact h.apart j j' e e' id he he' hr hr'

/-- A step of one delivery that was somewhere and is now in another phase. -/
theorem Inv.advance (own : Option ℕ) (h : s.Inv w) (hk : s.deliveries k = some d)
    (hs' : s'.deliveries = Function.update s.deliveries k (some { d with phase := phase }))
    (hframe : Frame (some k) own s s')
    (hown : ∀ id, phase.receiptId = some id → own = some id)
    (hid : own = d.phase.receiptId ∨ d.phase.receiptId = none ∧ ∀ id, own = some id → s.nextId ≤ id)
    (hfits : s'.Fits w k { d with phase := phase }) (hb : s'.Books w) : s'.Inv w := by
  refine h.change own hs' hframe ?_ ?_ hb
  · rintro e ⟨⟩
    exact ⟨h.sized k d hk, hfits, hown⟩
  · -- the receipt of this delivery is no other's
    intro j e id hj he hr ho
    rcases hid with hid | ⟨-, hid⟩
    · exact hj (h.apart j k e d id he hk hr (hid.symm.trans ho))
    · have hle := hid id ho
      have hlt := h.used he hr
      omega

/-- A statement that changes no row. -/
theorem Inv.quiet (own : Option ℕ) (h : s.Inv w) (hk : s.deliveries k = some d)
    (hs' : s'.deliveries = Function.update s.deliveries k (some { d with phase := phase }))
    (hrows : s'.receipts = s.receipts) (hsent : s'.sent = s.sent) (hnext : s.nextId ≤ s'.nextId)
    (hlock : ∀ j, j ≠ k → s.lock = some j → s'.lock = some j)
    (hown : ∀ id, phase.receiptId = some id → own = some id)
    (hid : own = d.phase.receiptId ∨ d.phase.receiptId = none ∧ ∀ id, own = some id → s.nextId ≤ id)
    (hfits : s'.Fits w k { d with phase := phase }) : s'.Inv w := by
  refine h.advance own hk hs' (frame_rows hs' hrows hlock hnext ?_) hown hid hfits
    (h.books hrows hsent hnext)
  rw [hsent]
  exact fun x hx => .inl hx

theorem Inv.unused_next (h : s.Inv w) : { s with nextId := s.nextId + 1 }.Unused s.nextId :=
  ⟨Nat.lt_succ_self _, fun r hr => (h.below r hr).ne⟩

theorem Recorded.cons {rs : List Receipt} {x : Sent} (h : Recorded rs x) (r : Receipt) : Recorded (r :: rs) x := by
  obtain ⟨r', hr', hspec⟩ := h
  exact ⟨r', mem_cons_of_mem r hr', hspec⟩

/-- The commit of a row. -/
theorem Inv.commit (h : s.Inv w)
    (hk : s.deliveries k = some d) (hid : d.phase.receiptId = some id) (hr : r.id = id) (hlock : s.lock = some k)
    (hunused : s.Unused id) (hordered : Ordered w.maxPerMinute (r :: s.receipts))
    (hown : ∀ id', phase.receiptId = some id' → some id = some id')
    (hfits : ({ s with receipts := r :: s.receipts, lock := none }.put k d phase).Fits w k
      { d with phase := phase }) :
    ({ s with receipts := r :: s.receipts, lock := none }.put k d phase).Inv w := by
  refine h.advance (some id) hk rfl ⟨fun j hj => ?_, fun j hj hl => ?_, le_rfl, ?_, ?_, ?_⟩ hown
    (.inl hid.symm) hfits ⟨?_, ?_, hordered, ?_, h.once, h.within⟩
  · exact update_of_ne (fun e => hj (congrArg some e)) _ _
  · exact absurd (hl.symm.trans hlock) hj
  · exact fun x hx _ => mem_cons_of_mem r hx
  · intro r' hr'
    rcases mem_cons.1 hr' with rfl | hr'
    · exact .inr (.inl (congrArg some hr.symm))
    · exact .inl ⟨r', hr', rfl⟩
  · exact fun x hx => .inl hx
  · show (r.id :: s.receipts.map Receipt.id).Nodup
    refine nodup_cons.2 ⟨?_, h.nodup⟩
    rw [hr]
    intro hm
    obtain ⟨r', hr', he⟩ := mem_map.1 hm
    exact hunused.2 r' hr' he
  · refine forall_mem_cons.2 ⟨?_, h.below⟩
    rw [hr]
    exact hunused.1
  · exact fun x hx => (h.recorded x hx).cons r

/-- The row of a delivery is finished: it may leave the count, and it keeps its fingerprint if it stays. -/
theorem weaker_finishAt (hnodup : (s.receipts.map Receipt.id).Nodup)
    (hmem : d.provisional id ∈ s.receipts) : ∀ r ∈ s.receipts, Weaker r (r.finishAt id v) := by
  intro r hr
  unfold Receipt.finishAt
  by_cases he : r.id = id
  · rw [if_pos he]
    obtain rfl : r = d.provisional id := inj_on_of_nodup_map hnodup hr hmem he
    refine ⟨rfl, rfl, fun f hf => ?_, fun _ => rfl⟩
    unfold Receipt.finish at hf
    simp only at hf
    split_ifs at hf
    exact hf
  · rw [if_neg he]
    exact ⟨rfl, rfl, fun f hf => hf, fun hl => hl⟩

theorem finishAt_id (id : ℕ) (v : Verdict) (r : Receipt) : (r.finishAt id v).id = r.id := by
  unfold Receipt.finishAt
  split_ifs <;> rfl

theorem counted_finish :
    (r.finish v).counted = true ↔ v.outcome = .accepted ∨ v.outcome = .unknown := by
  rw [Receipt.counted, Bool.or_eq_true, decide_eq_true_iff, decide_eq_true_iff]
  rfl

/-- The end of a delivery. -/
theorem Inv.finish (h : s.Inv w) (hk : s.deliveries k = some d) (hp : d.phase = .judged id v) :
    ({ s with receipts := s.receipts.map (Receipt.finishAt id v) }.put k d .done).Inv w := by
  have hfit := h.fits k d hk
  simp only [Fits, hp] at hfit
  obtain ⟨hmem, hsane, hkeeps⟩ := hfit
  have hweak := weaker_finishAt (v := v) h.nodup hmem
  refine h.advance (some id) hk rfl ⟨fun j hj => ?_, fun j hj hl => ⟨hl, ?_, ?_⟩, le_rfl, ?_, ?_, ?_⟩ nofun
    (.inl (by rw [hp]; rfl)) trivial ⟨?_, ?_, h.ordered.weaker hweak, ?_, h.once, h.within⟩
  · exact update_of_ne (fun e => hj (congrArg some e)) _ _
  · exact fun f t hf => hf.weaker hweak
  · exact fun c t hc => hc.weaker hweak
  · intro r hr hne
    refine mem_map.2 ⟨r, hr, ?_⟩
    rw [Receipt.finishAt, if_neg fun e => hne (congrArg some e.symm)]
  · intro r' hr'
    obtain ⟨r, hr, rfl⟩ := mem_map.1 hr'
    exact .inl ⟨r, hr, (finishAt_id id v r).symm⟩
  · exact fun x hx => .inl hx
  · show ((s.receipts.map (Receipt.finishAt id v)).map Receipt.id).Nodup
    have hids : Receipt.id ∘ Receipt.finishAt id v = Receipt.id := funext (finishAt_id id v)
    rw [List.map_map, hids]
    exact h.nodup
  · intro r' hr'
    obtain ⟨r, hr, rfl⟩ := mem_map.1 hr'
    rw [finishAt_id]
    exact h.below r hr
  · intro x hx
    obtain ⟨r, hr, hid, hat, hfp, hcount⟩ := h.recorded x hx
    refine ⟨r.finishAt id v, mem_map_of_mem hr, (finishAt_id id v r).trans hid, (hweak r hr).receivedAt.trans hat,
      ?_, ?_⟩
    · by_cases he : r.id = id
      · rw [Receipt.finishAt, if_pos he]
        intro hc
        have hkeep : (r.finish v).fingerprint = r.fingerprint := by
          simp [Receipt.finish, hsane (counted_finish.1 hc)]
        obtain rfl : r = d.provisional id := inj_on_of_nodup_map h.nodup hr hmem he
        rw [hkeep]
        exact hfp rfl
      · rw [Receipt.finishAt, if_neg he]
        exact hfp
    · intro hacc
      by_cases he : r.id = id
      · rw [Receipt.finishAt, if_pos he]
        exact counted_finish.2 (hkeeps x hx (hid.symm.trans he) hacc).2
      · rw [Receipt.finishAt, if_neg he]
        exact hcount hacc

/-- The calls of a delivery. -/
theorem Inv.act (h : s.Inv w) (hk : s.deliveries k = some d) (hp : d.phase = .acting id)
    (snapshot : Option VTSnapshot) (answers : ℕ → Outcome) :
    let x := (s.calls w snapshot d.job).run answers
    ({ s with sent := s.sent ++ ordersOf id d x.1 }.put k d (.judged id x.2)).Inv w := by
  intro x
  have hspec : OrderSpec w x.1 x.2 := orderSpec_calls (h.sized k d hk) s snapshot answers
  have hfit := h.fits k d hk
  simp only [Fits, hp] at hfit
  obtain ⟨hmem, hnone⟩ := hfit
  have hnew : ∀ y ∈ ordersOf id d x.1, y.receipt = id ∧ y.fingerprint = d.job.fingerprint ∧
      y.receivedAt = d.receivedAt ∧ (Request.order y.order, y.outcome) ∈ x.1 := by
    intro y hy
    obtain ⟨⟨q, o⟩, hq, he⟩ := mem_filterMap.1 hy
    cases q with
    | order ord =>
      simp only at he
      split_ifs at he
      cases he
      exact ⟨rfl, rfl, rfl, hq⟩
    | _ => cases he
  have hsent : ∀ y ∈ s.sent ++ ordersOf id d x.1, y ∈ s.sent ∨ y ∈ ordersOf id d x.1 := fun y hy =>
    mem_append.1 hy
  refine h.advance (some id) hk rfl (frame_rows rfl rfl (fun _ _ hl => hl) le_rfl ?_) ?_
    (.inl (by rw [hp]; rfl)) ⟨hmem, hspec.sane, ?_⟩ ⟨h.nodup, h.below, h.ordered, ?_, ?_, ?_⟩
  · intro y hy
    rcases hsent y hy with hy | hy
    · exact .inl hy
    · exact .inr (congrArg some (hnew y hy).1.symm)
  · exact fun id' he => he
  · intro y hy he hacc
    rcases hsent y hy with hy | hy
    · exact absurd he (hnone y hy)
    · exact hspec.kept _ _ (hnew y hy).2.2.2 hacc
  · intro y hy
    rcases hsent y hy with hy | hy
    · exact h.recorded y hy
    · obtain ⟨hid, hf, ht, -⟩ := hnew y hy
      exact ⟨_, hmem, hid.symm, ht.symm, fun _ => congrArg some hf.symm, fun _ => rfl⟩
  · show ((s.sent ++ ordersOf id d x.1).map Sent.receipt).Nodup
    rw [map_append, nodup_append]
    refine ⟨h.once, ?_, ?_⟩
    · have hlen : (ordersOf id d x.1).length ≤ 1 := by
        refine le_trans ?_ hspec.once
        unfold ordersOf
        rw [← countP_eq_length_filter, length_filterMap_eq_countP]
        refine countP_mono_left fun y _ hy => ?_
        obtain ⟨q, o⟩ := y
        cases q with
        | order ord => rfl
        | _ => cases hy
      rcases hord : ordersOf id d x.1 with _ | ⟨y, _ | ⟨z, ys⟩⟩
      · exact nodup_nil
      · exact nodup_singleton _
      · rw [hord] at hlen
        simp at hlen
    · intro a ha b hb
      obtain ⟨y, hy, rfl⟩ := mem_map.1 ha
      obtain ⟨z, hz, rfl⟩ := mem_map.1 hb
      rw [(hnew z hz).1]
      exact hnone y hy
  · intro y hy
    rcases hsent y hy with hy | hy
    · exact h.within y hy
    · exact hspec.sized _ _ (hnew y hy).2.2.2

theorem Inv.run (h : s.Inv w) (hk : s.deliveries k = some d)
    (hf : s.runDelivery w k d = some s') : s'.Inv w := by
  have hfit := h.fits k d hk
  obtain ⟨job, t, p⟩ := d
  cases p with
  | waiting =>
    simp only [runDelivery] at hf
    split_ifs at hf with hl
    cases hf
    refine h.quiet none hk rfl rfl rfl le_rfl (fun j _ hj => ?_) nofun (.inl rfl) rfl
    cases hj.symm.trans hl
  | locked =>
    simp only [runDelivery] at hf
    split_ifs at hf with hdup
    · cases hf
      refine h.quiet (some s.nextId) hk rfl rfl rfl (Nat.le_succ _) (fun j _ hj => hj) (fun id he => he)
        (.inr ⟨rfl, fun id he => (some.inj he).le⟩) ⟨hfit, h.unused_next⟩
    · cases hf
      refine h.quiet none hk rfl rfl rfl le_rfl (fun j _ hj => hj) nofun (.inl rfl)
        ⟨hfit, fun r hr hc hfp => ?_⟩
      -- no row inside the window has the fingerprint
      by_contra hlt
      refine hdup (any_eq_true.2 ⟨r, hr, ?_⟩)
      simp only [hfp, hc, Bool.and_eq_true, decide_eq_true_eq, true_and]
      exact not_le.1 hlt
  | unique =>
    simp only [runDelivery] at hf
    split_ifs at hf with hmax
    · cases hf
      refine h.quiet (some s.nextId) hk rfl rfl rfl (Nat.le_succ _) (fun j _ hj => hj) (fun id he => he)
        (.inr ⟨rfl, fun id he => (some.inj he).le⟩) ⟨hfit.1, h.unused_next⟩
    · cases hf
      refine h.quiet none hk rfl rfl rfl le_rfl (fun j _ hj => hj) nofun (.inl rfl)
        ⟨hfit.1, hfit.2, lt_of_le_of_lt ?_ (not_le.1 hmax)⟩
      refine countP_mono_left fun r _ hr => ?_
      simp only [Receipt.liveAfter, Receipt.live, Bool.and_eq_true, decide_eq_true_eq] at hr ⊢
      exact ⟨hr.1.1, hr.2⟩
  | admitted =>
    simp only [runDelivery] at hf
    cases hf
    refine h.quiet (some s.nextId) hk rfl rfl rfl (Nat.le_succ _) (fun j _ hj => hj) (fun id he => he)
      (.inr ⟨rfl, fun id he => (some.inj he).le⟩)
      ⟨hfit.1, hfit.2.1, hfit.2.2, h.unused_next⟩
  | inserted id =>
    simp only [runDelivery] at hf
    cases hf
    obtain ⟨hl, hfresh, hroom, hunused⟩ := hfit
    refine h.commit hk rfl rfl hl hunused ⟨fun f hfp => ?_, h.ordered⟩ (fun id' he => he)
      ⟨mem_cons_self, fun x hx he => ?_⟩
    · cases hfp
      exact ⟨hfresh, hroom⟩
    · obtain ⟨r, hr, hid, -⟩ := h.recorded x hx
      exact hunused.2 r hr (hid.trans he)
  | refusing id outcome =>
    simp only [runDelivery] at hf
    cases hf
    exact h.commit hk rfl rfl hfit.1 hfit.2 (h.ordered.cons_none rfl) nofun trivial
  | acting id | done =>
    simp only [runDelivery] at hf
    cases hf
  | judged id v =>
    simp only [runDelivery] at hf
    cases hf
    exact h.finish hk rfl

/-- **Every step keeps the invariant.** -/
theorem Inv.step (a : ReceiverAction) (h : s.Inv w) (hf : fire w a s = some s') : s'.Inv w := by
  cases a with
  | receive k body =>
    simp only [fire] at hf
    split at hf
    · next job hk hread =>
      cases hf
      refine h.change none rfl (frame_rows rfl rfl (fun _ _ hl => hl) le_rfl fun x hx => .inl hx) ?_
        (fun _ _ id _ _ _ => (some_ne_none id).symm) (h.books rfl rfl le_rfl)
      rintro e ⟨⟩
      exact ⟨read_sized hread, trivial, nofun⟩
    · cases hf
  | run k =>
    obtain ⟨d, hk, hf⟩ := bind_eq_some_iff.1 hf
    exact h.run hk hf
  | act k snapshot answers =>
    simp only [fire] at hf
    split at hf
    · next d hk =>
      split at hf
      · next id hp =>
        cases hf
        exact h.act hk hp snapshot answers
      · cases hf
    · cases hf
  | drop k =>
    cases hf
    refine h.change none rfl (frame_rows rfl rfl (fun j hj hl => ?_) le_rfl fun x hx => .inl hx) ?_
      (fun _ _ id _ _ _ => (some_ne_none id).symm) (h.books rfl rfl le_rfl)
    · show (if s.lock = some k then none else s.lock) = some j
      rw [if_neg fun e => hj (some.inj (hl.symm.trans e))]
      exact hl
    · rintro e ⟨⟩
  | record outcome =>
    cases hf
    have hframe : Frame none none s
        { s with receipts := ⟨s.nextId, s.clock, outcome, none⟩ :: s.receipts, nextId := s.nextId + 1 } := by
      refine ⟨fun _ _ => rfl, fun j _ hl => ⟨hl, fun f t hfr => hfr.cons_none rfl, fun c t hc => hc.cons_none rfl⟩,
        Nat.le_succ _, fun r hr _ => mem_cons_of_mem _ hr, fun r hr => ?_, fun x hx => .inl hx⟩
      rcases mem_cons.1 hr with rfl | hr
      · exact .inr (.inr le_rfl)
      · exact .inl ⟨r, hr, rfl⟩
    refine ⟨?_, ?_, h.ordered.cons_none rfl, h.sized, ?_, h.apart, ?_, h.once, h.within⟩
    · refine nodup_cons.2 ⟨fun hm => ?_, h.nodup⟩
      obtain ⟨r, hr, he⟩ := mem_map.1 hm
      exact (h.below r hr).ne he
    · intro r hr
      rcases mem_cons.1 hr with rfl | hr
      · exact Nat.lt_succ_self _
      · exact Nat.lt_succ_of_lt (h.below r hr)
    · intro j e he
      exact hframe.fits (some_ne_none j) (h.fits j e he) fun id _ => (some_ne_none id).symm
    · exact fun x hx => (h.recorded x hx).cons _
  | tick now =>
    simp only [fire] at hf
    split_ifs at hf
    cases hf
    exact ⟨h.nodup, h.below, h.ordered, h.sized, fun j e he => h.fits j e he, h.apart, h.recorded,
      h.once, h.within⟩

end Steps

theorem inv_init (w : Workspace) : init.Inv w := by
  refine ⟨nodup_nil, forall_mem_nil _, trivial, fun i d hd => absurd hd nofun,
    fun i d hd => absurd hd nofun, fun i j d e id hd => absurd hd nofun, forall_mem_nil _,
    nodup_nil, forall_mem_nil _⟩

/-- The receipt sent an order. -/
def SentOrder (s : Receiver) (r : Receipt) : Bool := s.sent.any fun x => x.receipt = r.id

/-- **At most once and within the caps.** -/
theorem orders_once_and_capped (w : Workspace) {s : Receiver}
    (h : Machine.Run (fire w) (fun _ _ => True) init s) :
    -- deliveries of one fingerprint that begin less than 20 seconds apart get one order accepted at most
    (s.sent.map Sent.receipt).Nodup ∧
    (∀ x ∈ s.sent, ∀ y ∈ s.sent, x.outcome.accepted = true → y.outcome.accepted = true →
      x.fingerprint = y.fingerprint → |x.receivedAt - y.receivedAt| < dedupWindow → x = y) ∧
    -- a minute has at most `max_per_minute` receipts that sent an order and are accepted or unknown
    (∀ t : ℚ, (s.receipts.filter fun r => s.SentOrder r && r.counted &&
      decide (t ≤ r.receivedAt ∧ r.receivedAt < t + minute)).length ≤ w.maxPerMinute) ∧
    -- every order has a size within the caps
    ∀ x ∈ s.sent, ∃ cap, lotCap w.maxLots = some cap ∧ 0 < x.order.lots ∧ x.order.lots ≤ cap := by
  have hinv : s.Inv w := h.invariant (inv_init w) fun a _ _ _ hi hf => hi.step a hf
  refine ⟨hinv.once, fun x hx y hy hax hay hfp hclose => ?_, fun t => ?_, hinv.within⟩
  · by_contra hne
    obtain ⟨r, hr, hid, hat, hf, hc⟩ := hinv.recorded x hx
    obtain ⟨r', hr', hid', hat', hf', hc'⟩ := hinv.recorded y hy
    have hrr : r ≠ r' := by
      rintro rfl
      exact hne (inj_on_of_nodup_map hinv.once hx hy (hid.symm.trans hid'))
    have hsame : r'.fingerprint = some x.fingerprint := (hf' (hc' hay)).trans (congrArg some hfp.symm)
    have hfar := hinv.ordered.apart hr hr' hrr (hc hax) (hc' hay) (hf (hc hax)) hsame
    rw [hat, hat'] at hfar
    exact absurd hclose (not_lt.2 hfar)
  · rw [← countP_eq_length_filter]
    refine le_trans (countP_mono_left fun r hr hx => ?_) (hinv.ordered.window t)
    simp only [Bool.and_eq_true, decide_eq_true_eq] at hx
    obtain ⟨⟨hsent, hc⟩, hwin⟩ := hx
    obtain ⟨x, hx, he⟩ := any_eq_true.1 hsent
    obtain ⟨r', hr', hid, -, hf, -⟩ := hinv.recorded x hx
    obtain rfl : r' = r := inj_on_of_nodup_map hinv.nodup hr' hr (hid.trans (of_decide_eq_true he))
    simp only [Receipt.liveWithin, Bool.and_eq_true, decide_eq_true_eq]
    exact ⟨live_of hc (hf hc), hwin⟩

/-- **No order without its receipt**: an order that was written has one receipt, of its own time; if the copier
accepted it, the receipt counts and keeps the fingerprint that stops a resend. -/
theorem orders_recorded (w : Workspace) {s : Receiver} (h : Machine.Run (fire w) (fun _ _ => True) init s) :
    ∀ x ∈ s.sent, ∃ r ∈ s.receipts, (∀ r' ∈ s.receipts, r'.id = x.receipt ↔ r' = r) ∧ r.receivedAt = x.receivedAt ∧
      (x.outcome.accepted = true → r.counted = true ∧ r.fingerprint = some x.fingerprint) := by
  have hinv : s.Inv w := h.invariant (inv_init w) fun a _ _ _ hi hf => hi.step a hf
  intro x hx
  obtain ⟨r, hr, hid, hat, hf, hc⟩ := hinv.recorded x hx
  refine ⟨r, hr, fun r' hr' => ⟨fun he => ?_, fun he => he ▸ hid⟩, hat, fun ha => ⟨hc ha, hf (hc ha)⟩⟩
  exact inj_on_of_nodup_map hinv.nodup hr' hr (he.trans hid.symm)

/-! ### Three alerts of one text -/

def samplePython : Python :=
  { float := fun _ => none, int := fun _ => none
    str := fun x => match x with
      | .str s => s
      | _ => ""
    repr := fun _ => "", general := fun _ => "" }

/-- Two orders a minute. -/
def sampleWorkspace : Workspace := ⟨samplePython, 1, some (.finite 1), 2, 5, [], []⟩

def sampleBody : Json := .dict [("action", .str "buy"), ("symbol", .str "XAUUSD"), ("id", .str "t"),
    ("lots", .int 1)]

/-- The copier takes everything. -/
def sampleTaken : ℕ → Outcome := fun _ => .answered 200 ⟨Book.empty, ""⟩ true

/-- A delivery from its receipt to its verdict. -/
def sampleDelivery (i : ℕ) : List ReceiverAction :=
  [.receive i sampleBody, .run i, .run i, .run i, .run i, .run i, .act i none sampleTaken, .run i]

/-- Deliveries at 0, 20 and 60 seconds. -/
def sampleDay : List ReceiverAction :=
  sampleDelivery 0 ++ .tick 20 :: sampleDelivery 1 ++ .tick 60 :: sampleDelivery 2

/-- A day of three alerts. -/
theorem orders_once_and_capped_day : ∃ s : Receiver, s.sent.length = 3 ∧
    (∀ x ∈ s.sent, ∀ y ∈ s.sent, x.outcome.accepted = true → y.outcome.accepted = true →
      x.fingerprint = y.fingerprint → |x.receivedAt - y.receivedAt| < dedupWindow → x = y) ∧
    ∀ x ∈ s.sent, ∃ cap, lotCap sampleWorkspace.maxLots = some cap ∧ 0 < x.order.lots ∧ x.order.lots ≤ cap := by
  obtain ⟨s, hrun, hlen⟩ : ∃ s : Receiver, Machine.Run (fire sampleWorkspace) (fun _ _ => True) init s ∧
      s.sent.length = 3 :=
    Machine.exists_run sampleDay init (by decide +kernel)
  have h := orders_once_and_capped sampleWorkspace hrun
  exact ⟨s, hlen, h.2.1, h.2.2.2⟩

theorem orders_recorded_day : ∃ s : Receiver, Machine.Run (fire sampleWorkspace) (fun _ _ => True) init s ∧
    s.sent.length = 3 ∧ ∀ x ∈ s.sent, ∃ r ∈ s.receipts, r.receivedAt = x.receivedAt := by
  refine Machine.exists_run_and sampleDay init fun s hrun _ x hx => ?_
  obtain ⟨r, hr, -, hat, -⟩ := orders_recorded sampleWorkspace hrun x hx
  exact ⟨r, hr, hat⟩

/-- **At the ends of the windows.**  Two alerts of one text exactly 20 seconds apart are both accepted, and the
minute from the first to the third, both ends counted, has three orders where two are allowed. -/
theorem accepted_at_window_ends : ∃ s : Receiver, Machine.Run (fire sampleWorkspace) (fun _ _ => True) init s ∧
    (∃ x ∈ s.sent, ∃ y ∈ s.sent, x.receipt ≠ y.receipt ∧ x.outcome.accepted = true ∧ y.outcome.accepted = true ∧
      x.fingerprint = y.fingerprint ∧ |x.receivedAt - y.receivedAt| = dedupWindow) ∧
    sampleWorkspace.maxPerMinute < (s.receipts.filter fun r => s.SentOrder r && r.counted &&
      decide (0 ≤ r.receivedAt ∧ r.receivedAt ≤ 0 + minute)).length :=
  Machine.exists_run sampleDay init (by decide +kernel)

end Receiver

end Webhook
