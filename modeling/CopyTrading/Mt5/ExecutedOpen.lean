import CopyTrading.Mt5.Steps

/-!
# Mt5.ExecutedOpen — executed opens and the time a command has

A copy's open expires `OPEN_COMMAND_TTL_S` after it was queued, whether or not the terminal ran it: only an
acknowledgement in the same report comes before the expiry.  An expert that restarts loses the acknowledgements
it has not sent, so an executed open may be expired and its mapping failed (`executed_open_expired`).  While the
acknowledgements come in time, neither happens (`executed_open_kept`).
-/

namespace Copier.Mt5

open List Option CommandRow

variable {account : ℕ} {c : ClientOrderId} {ms : Mappings}

/-! ### Giving up comes after expiring -/

/-- Each hand-over came after the last one's time to redeliver, the first after the row was queued. -/
def CommandRow.Paced (r : CommandRow) : Prop :=
  r.status = .sent → ∃ t, r.sentAt = some t ∧ r.createdAt + redeliverAfter * ((r.attempts : ℚ) - 1) < t

section Paced

variable {account : ℕ} {now : ℚ} {r : CommandRow}

theorem sent_of_not_recent {t : ℚ} (hs : r.status = .sent) (ht : r.sentAt = some t) (h : r.recent now = false) :
    t + redeliverAfter ≤ now := by
  simp only [recent, hs, ht, decide_true, Bool.true_and, getD_some, decide_eq_false_iff_not,
    not_lt] at h
  linarith

/-- A row that would be given up has expired. -/
theorem exhausted_stale (hp : r.Paced) (he : r.expires = true) (h : r.exhausted account now = true) :
    r.stale account now = true := by
  have hopen := exhausted_open h
  simp only [exhausted, Bool.and_eq_true, Bool.not_eq_true', decide_eq_true_eq] at h
  obtain ⟨⟨hacc, hrec⟩, hsent, hatt⟩ := h
  obtain ⟨t, ht, hlt⟩ := hp hsent
  have hwait := sent_of_not_recent hsent ht hrec
  have hthree : (3 : ℚ) ≤ r.attempts := by exact_mod_cast hatt
  have hlate : r.createdAt < now - openCommandTtl := by
    simp only [redeliverAfter, openCommandTtl] at hlt hwait ⊢
    linarith
  simp [stale, hacc, he, hopen, hlate]

theorem polled_paced (hp : r.Paced) (hq : r.status = .queued → r.attempts = 0 ∧ r.createdAt < now) :
    (r.polled account now).Paced := by
  have h := polled_cases account now r
  generalize r.polled account now = r' at h ⊢
  cases h with
  | kept => exact hp
  | expired | gaveUp => exact nofun
  | handed hs hd =>
    refine fun _ => ⟨now, rfl, ?_⟩
    show r.createdAt + redeliverAfter * (((r.attempts + 1 : ℕ) : ℚ) - 1) < now
    rw [Nat.cast_add, Nat.cast_one, add_sub_cancel_right]
    rcases Bool.or_eq_true_iff.1 (due_open hd) with hqueued | hsent
    · obtain ⟨hzero, hlt⟩ := hq (by simpa using hqueued)
      rw [hzero, Nat.cast_zero, mul_zero, add_zero]
      exact hlt
    · have hsent : r.status = .sent := by simpa using hsent
      obtain ⟨t, ht, hlt⟩ := hp hsent
      have hrec : r.recent now = false := by
        simp only [due, Bool.and_eq_true, Bool.not_eq_true'] at hd
        exact hd.1.2
      have hwait := sent_of_not_recent hsent ht hrec
      simp only [redeliverAfter] at hlt hwait ⊢
      linarith

end Paced

/-! ### Activated mappings -/

/-- The copy's mapping is there, and no longer pending if it is the account's. -/
def Woken (account : ℕ) (c : ClientOrderId) (ms : Mappings) : Prop :=
  ∃ m, ms.find c = some m ∧ (m.slaveAccountId = account → m.status ≠ .pending)

theorem Woken.advances {ms' : Mappings} (h : Woken account c ms)
    (ha : Advances ms ms') : Woken account c ms' := by
  obtain ⟨m, hm, hp⟩ := h
  obtain ⟨m', hm', hacc, hstatus⟩ := ha c m hm
  exact ⟨m', hm', fun he hpend => hp (hacc ▸ he) (hstatus hpend)⟩

/-- An update of the copy's row that leaves it not pending. -/
theorem woken_updateFound {f : Mapping → Mapping} {hf : ∀ m, (f m).clientOrderId = m.clientOrderId}
    (h : (ms.find c).isSome) (hact : ∀ m, (f m).status ≠ .pending) :
    Woken account c ((updateFound (Mapping.isCopy account c) f hf ms).getD ms) := by
  obtain ⟨m, hm⟩ := isSome_iff_exists.1 h
  have hc : m.clientOrderId = c := (Table.find_eq_some hm).2
  refine ⟨if Mapping.isCopy account c m then f m else m, by rw [find_updateFound, hm]; rfl, ?_⟩
  split_ifs with hcopy
  · exact fun _ => hact m
  · intro hacc
    exact absurd (by simp [Mapping.isCopy, hc, hacc]) hcopy

namespace Server

variable {cfg : ServerConfig} {gates : Org} {now : ℚ} {account : ℕ} {report : FollowerReport}
  {s : Server} {c : ClientOrderId} {o : AckOutcome} {ms : Mappings}

/-- The ticket that an acknowledged open is booked with. -/
def ticketOf (report : FollowerReport) (o : AckOutcome) : Option ℕ :=
  (o.position.filter (· ≠ 0)).or (((dealOf report o).map ReportDeal.position).filter (· ≠ 0))

/-- The acknowledgement of a copy's open; a successful one has a ticket to book it with. -/
structure Answers (report : FollowerReport) (c : ClientOrderId) (o : AckOutcome) : Prop where
  copy : o.clientOrderId = some c
  kind : (o.kind = .openMarket ∧ c.isMarketCopy = true ∧ (o.ok = true → (ticketOf report o).isSome)) ∨
    (o.kind = .placePending ∧ ∃ p a, c = .co p a)

theorem woken_applyOutcome (h : Answers report c o) (hc : (s.service.mappings.find c).isSome) :
    Woken account c (s.applyOutcome cfg gates now account report o).service.mappings := by
  unfold applyOutcome
  by_cases hok : o.ok = false
  · have hopen : o.kind = .openMarket ∨ o.kind = .placePending := h.kind.imp And.left And.left
    rw [if_pos hok, if_pos hopen, h.copy]
    exact woken_updateFound hc fun _ => nofun
  · rw [if_neg hok]
    rcases h.kind with ⟨hk, hcm, ht⟩ | ⟨hk, p, a, rfl⟩
    · obtain ⟨ticket, hticket⟩ := isSome_iff_exists.1 (ht (by simpa using hok))
      rw [ticketOf] at hticket
      rw [hk]
      simp only [hticket]
      have hpin : ∀ fill : SlaveFill, fill.clientOrderId = o.clientOrderId → fill.pinned = some c := by
        intro fill hfill
        rw [SlaveFill.pinned, hfill, h.copy, filter_some, if_pos hcm]
      show Woken account c (s.service.handleSlaveFill gates account _).1.mappings
      rw [handleSlaveFill_market rfl (hpin _ rfl)]
      exact woken_updateFound hc fun _ => nofun
    · rw [hk, h.copy]
      exact woken_updateFound hc fun _ => nofun

theorem woken_settle (h : Answers report c o) (hc : (s.service.mappings.find c).isSome)
    (ho : o ∈ (applyAcks account s.rows report.acks).2) :
    Woken account c (s.settle cfg gates now account report).service.mappings := by
  obtain ⟨pre, post, hout⟩ := append_of_mem ho
  simp only [settle]
  rw [hout, foldl_append, foldl_cons]
  have hR := follows_onward account
  have hadv : ∀ (os : List AckOutcome) (s : Server), Advances s.service.mappings
      (os.foldl (fun s o => s.applyOutcome cfg gates now account report o) s).service.mappings := fun os s =>
    outcomes_rel (R := fun s s' => Advances s.service.mappings s'.service.mappings) (fun _ => .refl Onward.refl _)
      (fun h h' => h.trans Onward.trans h') (fun h => (h.rewrites hR).evolves) os s
  refine (woken_applyOutcome h ?_).advances (hadv post _)
  exact (hadv pre _).isSome hc

theorem woken_booked (h : Answers report c o) (hc : (s.service.mappings.find c).isSome)
    (ho : o ∈ (applyAcks account s.rows report.acks).2) :
    Woken account c (s.booked cfg gates now account report).service.mappings :=
  (woken_settle h hc ho).advances (ingest_rel (R := fun s s' => Advances s.service.mappings s'.service.mappings)
    (fun h h' => h.trans Onward.trans h') (fun h => (h.rewrites (follows_onward account)).evolves)
    (fun _ _ _ => .refl Onward.refl _) _)

/-! ### What a delivery leaves alone -/

theorem foldl_find {α : Type} {f : Mappings → α → Mappings} {m : Option Mapping} {xs : List α}
    (h : ∀ x ∈ xs, ∀ ms : Mappings, ms.find c = m → (f ms x).find c = m) (hm : ms.find c = m) :
    (xs.foldl f ms).find c = m := by
  induction xs generalizing ms with
  | nil => exact hm
  | cons x xs ih => exact ih (fun y hy => h y (mem_cons_of_mem x hy)) (h x mem_cons_self ms hm)

theorem find_failStaleOpen {c' : ClientOrderId} (h : c' = c → Woken account c ms) :
    (failStaleOpen account c' ms).find c = ms.find c := by
  rw [failStaleOpen, find_updateWhere]
  cases hm : ms.find c with
  | none => rfl
  | some m =>
    rw [map_some, if_neg]
    simp only [Mapping.isCopy, Bool.and_eq_true, decide_eq_true_eq]
    rintro ⟨⟨hc', hacc⟩, hpend⟩
    have hc : m.clientOrderId = c := (Table.find_eq_some hm).2
    obtain ⟨m', hm', hw⟩ := h (hc'.symm.trans hc)
    cases hm.symm.trans hm'
    exact hw hacc hpend

/-- **A delivery does not fail a copy** whose mapping is activated, or none of whose opens has expired. -/
theorem find_deliver
    (hex : ∀ r ∈ s.rows, r.clientOrderId = some c → r.closing = false → r.exhausted account now = true →
      r.stale account now = true)
    (hst : ∀ r ∈ s.rows, r.clientOrderId = some c → r.stale account now = true →
      Woken account c s.service.mappings) :
    (s.deliver now account).1.service.mappings.find c = s.service.mappings.find c := by
  refine foldl_find (fun r hr ms hms => ?_) (foldl_find (fun r hr ms hms => ?_) rfl)
  · obtain ⟨hr, hexh⟩ := mem_filter.1 hr
    obtain ⟨r₀, hr₀, rfl⟩ := mem_map.1 hr
    split
    · next c' hc' =>
      by_cases hclosing : (r₀.failStale account now).closing
      · rw [if_pos hclosing]
        exact hms
      · rw [if_neg hclosing, failMapping, find_updateFound, hms]
        cases hm : s.service.mappings.find c with
        | none => rfl
        | some m =>
          rw [map_some, if_neg]
          simp only [Mapping.isCopy, Bool.and_eq_true, decide_eq_true_eq]
          rintro ⟨hmc, -⟩
          -- the row is not expired, so it cannot be given up
          have hcc : c' = c := hmc.symm.trans (Table.find_eq_some hm).2
          by_cases hstale : r₀.stale account now = true
          · rw [failStale, if_pos hstale] at hexh
            simp [exhausted] at hexh
          · have hfs : r₀.failStale account now = r₀ := if_neg hstale
            rw [hfs] at hexh hc' hclosing
            exact hstale (hex r₀ hr₀ (hcc ▸ hc') (by simpa using hclosing) hexh)
    · exact hms
  · obtain ⟨hr, hstale⟩ := mem_filter.1 hr
    split
    · next c' hc' =>
      rw [find_failStaleOpen, hms]
      rintro rfl
      obtain ⟨m, hm, hw⟩ := hst r hr hc' hstale
      exact ⟨m, hms.trans hm, hw⟩
    · exact hms

end Server

/-- An open of a copy that is acknowledged. -/
theorem answers_outcome {report : FollowerReport} {r : CommandRow} {k : Ack} (hl : Labelled r)
    (he : r.expires = true) (hc : r.clientOrderId = some c)
    (ht : k.result.ok = true → r.payload.kind = .openMarket → (Server.ticketOf report (r.outcome k)).isSome) :
    Server.Answers report c (r.outcome k) := by
  have hclosing : r.closing = false := by
    unfold expires at he
    split at he
    · simpa using he
    · simpa using he
    · cases he
  have hkind : (r.outcome k).kind = r.payload.kind := if_neg (by simp [hclosing])
  refine ⟨hc, ?_⟩
  rw [hkind]
  cases hp : r.payload with
  | openMarket symbol side volume levels comment =>
    have hmarket : r.payload.kind = .openMarket := by rw [hp]; rfl
    exact .inl ⟨rfl, hl.market hmarket c hc, fun hok => ht hok hmarket⟩
  | placePending symbol orderType volume price levels expiryMs comment =>
    have hpending : r.payload.kind = .placePending := by rw [hp]; rfl
    exact .inr ⟨rfl, hl.pending hpending c hc⟩
  | _ =>
    rw [expires, hp] at he
    cases he

namespace Exchange

variable {τ μ : Type} {cfg : ExchangeConfig τ μ} {s s' : Exchange τ} {a : ExchangeAction μ}

/-! ### Acknowledgements in time -/

/-- No copy's open is polled at the instant it is queued. -/
def Aged (cfg : ExchangeConfig τ μ) (s : Exchange τ) : Prop :=
  ∀ r ∈ s.server.rows, r.accountId = cfg.account → r.expires = true → r.status = .queued → r.createdAt < s.clock

/-- Every successful open has a ticket to be booked with. -/
def Ticketed (s : Exchange τ) (report : FollowerReport) : Prop :=
  ∀ k ∈ report.acks, k.result.ok = true → ∀ r ∈ s.server.rows, r.id = k.commandId → r.isOpen = true →
    r.expires = true → r.payload.kind = .openMarket → (Server.ticketOf report (r.outcome k)).isSome = true

/-- While an executed open of a copy is neither settled nor acknowledged in the report, no open of that copy is
past its time. -/
def Punctual (cfg : ExchangeConfig τ μ) (s : Exchange τ) (report : FollowerReport) : Prop :=
  ∀ k ∈ s.executed, k.result.ok = true → ∀ r ∈ s.server.rows, r.id = k.commandId → r.isOpen = true →
    r.expires = true → r.clientOrderId.isSome = true →
    (∃ k' ∈ report.acks, k'.commandId = r.id) ∨
      ∀ r' ∈ s.server.rows, r'.clientOrderId = r.clientOrderId → r'.stale cfg.account s.clock = false

/-- A report of the account comes in time. -/
structure Timely (cfg : ExchangeConfig τ μ) (s : Exchange τ) (report : FollowerReport) : Prop where
  aged : s.Aged cfg
  ticketed : s.Ticketed report
  punctual : s.Punctual cfg report

/-- The reports come in time, old ones have acknowledgements of executed commands, and a copy's open is not run
once the server has settled it. -/
def InTime (cfg : ExchangeConfig τ μ) : ExchangeAction μ → Exchange τ → Prop
  | .poll _ _ (.stale false _), _ => True
  | .poll _ count _, s => s.Timely cfg (s.body cfg count)
  | .report _ account report, s =>
    account = cfg.account → (∀ k ∈ report.acks, k ∈ s.executed) ∧ s.Timely cfg report
  | .execute, s => ∀ line ∈ s.expert.inbox.head?, s.expert.findDone line.id = none →
      (∀ k ∈ s.executed, k.commandId = line.id → k.result.ok = false) →
      ∀ r ∈ s.server.rows, r.id = line.id → r.expires = true → r.isOpen = true
  | _, _ => True

instance (cfg : ExchangeConfig τ μ) (s : Exchange τ) : Decidable (s.Aged cfg) := by
  unfold Aged
  infer_instance

instance (s : Exchange τ) (report : FollowerReport) : Decidable (s.Ticketed report) := by
  unfold Ticketed
  infer_instance

instance (cfg : ExchangeConfig τ μ) (s : Exchange τ) (report : FollowerReport) :
    Decidable (s.Punctual cfg report) := by
  unfold Punctual
  infer_instance

instance (cfg : ExchangeConfig τ μ) (s : Exchange τ) (report : FollowerReport) : Decidable (s.Timely cfg report) :=
  decidable_of_iff (s.Aged cfg ∧ s.Ticketed report ∧ s.Punctual cfg report)
    ⟨fun h => ⟨h.1, h.2.1, h.2.2⟩, fun h => ⟨h.aged, h.ticketed, h.punctual⟩⟩

instance (cfg : ExchangeConfig τ μ) (a : ExchangeAction μ) (s : Exchange τ) : Decidable (InTime cfg a s) := by
  induction a using ExchangeAction.casesOn with
  | poll gates count fate => induction fate using Fate.casesOn with
    | stale handled reply => induction handled using Bool.casesOn <;> (dsimp only [InTime]; infer_instance)
    | _ => dsimp only [InTime]; infer_instance
  | _ => dsimp only [InTime]; infer_instance

/-! ### The invariant -/

/-- What is known of an executed open of a copy: it is open, or its mapping is no longer pending and only a
refusal of the terminal has failed it. -/
def Answered (cfg : ExchangeConfig τ μ) (s : Exchange τ) (r : CommandRow) (c : ClientOrderId) : Prop :=
  r.isOpen = true ∨ (Woken cfg.account c s.server.service.mappings ∧
    (r.status = .failed → ∃ k ∈ s.executed, k.commandId = r.id ∧ k.result.ok = false))

structure Kept (cfg : ExchangeConfig τ μ) (s : Exchange τ) : Prop where
  counted : s.Counted
  registered : Registered s.server
  traced : s.Traced cfg
  paced : ∀ r ∈ s.server.rows, r.accountId = cfg.account → r.expires = true → r.Paced
  answered : ∀ k ∈ s.executed, k.result.ok = true → ∀ r ∈ s.server.rows, r.id = k.commandId →
    r.expires = true → ∀ c, r.clientOrderId = some c → s.Answered cfg r c

theorem kept_init (t : τ) : (init t).Kept cfg where
  counted := counted_init t
  registered := registered_init t
  traced := traced_init t
  paced := by simp [init]
  answered := by simp [init]

section Handled

variable {gates : Org} {account : ℕ} {report : FollowerReport} {k : Ack} {r : CommandRow}
  {c : ClientOrderId}

section

variable (h : s.Kept cfg)
include h

/-- The acknowledgements of a report of the account are of executed commands. -/
theorem Kept.acks (ha : InTime cfg a s) (hh : handles cfg a s = some (gates, cfg.account, report)) :
    (∀ k ∈ report.acks, k ∈ s.executed) ∧ s.Timely cfg report := by
  unfold handles at hh
  split at hh
  · cases hh
  · next fate hfate =>
    obtain rfl := (Prod.mk.inj (Prod.mk.inj (some.inj hh)).2).2
    refine ⟨h.traced.pending, ?_⟩
    cases fate with
    | delivered | replyLost => exact ha
    | stale handled reply =>
      cases handled with
      | false => exact absurd rfl (hfate reply)
      | true => exact ha
  · obtain ⟨rfl, rfl⟩ := Prod.mk.inj (Prod.mk.inj (some.inj hh)).2
    exact ha rfl
  · cases hh

theorem Kept.accountId (hk : k ∈ s.executed) (hr : r ∈ s.server.rows)
    (hid : r.id = k.commandId) : r.accountId = cfg.account := by
  obtain ⟨r₀, hr₀, hid₀, hacc⟩ := h.traced.ran k hk
  rw [h.counted.numbered.unique hr hr₀ (hid.trans hid₀.symm)]
  exact hacc

/-- The rows that a report leaves before the delivery are paced too. -/
theorem Kept.paced_booked
    (hr : r ∈ (s.server.booked cfg.server gates s.clock account report).rows) (hacc : r.accountId = cfg.account)
    (he : r.expires = true) :
    r.Paced ∧ (r.status = .queued → r ∈ s.server.rows) := by
  obtain ⟨r₀, hr₀, ⟨rfl, -⟩ | ⟨-, -, k, -, -, rfl, -⟩⟩ := booked_cases h.counted.numbered hr (.inr he)
  · exact ⟨h.paced r hr₀ hacc he, fun _ => hr₀⟩
  · constructor
    · intro hsent
      cases hk : k.result.ok <;> simp [hk] at hsent
    · intro hqueued
      cases hk : k.result.ok <;> simp [hk] at hqueued

/-- An acknowledged open of a copy has its mapping activated or failed before the delivery. -/
theorem Kept.woken_booked (ht : s.Timely cfg report) (hr : r ∈ s.server.rows)
    (ho : r.isOpen = true) (he : r.expires = true) (hc : r.clientOrderId = some c)
    (hk : k ∈ report.acks) (hid : k.commandId = r.id)
    (hout : r.outcome k ∈ (applyAcks account s.server.rows report.acks).2) :
    Woken account c (s.server.booked cfg.server gates s.clock account report).service.mappings := by
  refine Server.woken_booked (answers_outcome (h.registered.labelled r hr) he hc fun hok hkind => ?_)
    (h.registered.known r hr c hc) hout
  exact ht.ticketed k hk hok r hr hid.symm ho he hkind

/-- **The delivery does not fail the mapping of an executed open.** -/
theorem Kept.find_delivered (ha : InTime cfg a s)
    (hh : handles cfg a s = some (gates, account, report)) (hk : k ∈ s.executed) (hok : k.result.ok = true)
    (hr : r ∈ s.server.rows) (hid : r.id = k.commandId) (he : r.expires = true)
    (hc : r.clientOrderId = some c) :
    ((s.server.booked cfg.server gates s.clock account report).deliver s.clock account).1.service.mappings.find c =
      (s.server.booked cfg.server gates s.clock account report).service.mappings.find c := by
  have hracc := h.accountId hk hr hid
  -- another account's rows are of other copies
  have hsame : ∀ r₁ ∈ (s.server.booked cfg.server gates s.clock account report).rows, r₁.clientOrderId = some c →
      r₁.accountId = cfg.account ∧ (r₁.closing = false → r₁.expires = true) := by
    intro r₁ hr₁ hc₁
    obtain ⟨r₀, hr₀, hcases⟩ := booked_cases h.counted.numbered hr₁ (.inl (by rw [hc₁]; rfl))
    have hl₁ : Labelled r₁ := by
      rcases hcases with ⟨rfl, -⟩ | ⟨-, -, k', -, -, rfl, -⟩
      · exact h.registered.labelled r₁ hr₀
      · exact (h.registered.labelled r₀ hr₀).congr ⟨rfl, rfl, rfl, rfl, rfl⟩
    have hca := (h.registered.labelled r hr).account c hc
    rw [hl₁.account c hc₁, hracc] at hca
    refine ⟨some.inj hca, fun hclosing => ?_⟩
    rcases hl₁.kind c hc₁ with he₁ | hx
    · exact he₁
    · rw [hclosing] at hx
      cases hx
  refine Server.find_deliver (fun r₁ hr₁ hc₁ hclosing hexh => ?_) fun r₁ hr₁ hc₁ hstale => ?_
  · obtain ⟨hacc₁, he₁⟩ := hsame r₁ hr₁ hc₁
    exact exhausted_stale (h.paced_booked hr₁ hacc₁ (he₁ hclosing)).1 (he₁ hclosing) hexh
  · obtain ⟨hacc₁, -⟩ := hsame r₁ hr₁ hc₁
    have haccount : account = cfg.account := by
      simp only [stale, Bool.and_eq_true, decide_eq_true_eq] at hstale
      exact hstale.1.1.1.symm.trans hacc₁
    subst haccount
    obtain ⟨-, ht⟩ := h.acks ha hh
    rcases h.answered k hk hok r hr hid he c hc with ho | ⟨hw, -⟩
    · rcases ht.punctual k hk hok r hr hid ho he (by rw [hc]; rfl) with ⟨k', hk', hid'⟩ | hfresh
      · obtain ⟨f, -, hall⟩ := applyAcks_cases cfg.account h.counted.numbered report.acks
        rcases hall r hr with ⟨-, hno⟩ | ⟨-, -, k₁, hk₁, hid₁, -, hout⟩
        · exact absurd hid' (hno ho hracc k' hk')
        · exact h.woken_booked ht hr ho he hc hk₁ hid₁ hout
      · -- the expired row was there before the report
        obtain ⟨r₀, hr₀, ⟨rfl, -⟩ | ⟨-, -, k₁, -, -, rfl, -⟩⟩ :=
          booked_cases h.counted.numbered hr₁ (.inl (by rw [hc₁]; rfl))
        · rw [hfresh r₁ hr₀ (hc₁.trans hc.symm)] at hstale
          cases hstale
        · have hopen := stale_open hstale
          rw [isOpen_settled] at hopen
          cases hopen
    · exact hw.advances (Server.rewrites_booked (follows_onward _)).evolves

/-- **A report keeps what is known of an executed open.** -/
theorem Kept.answered_handled (ha : InTime cfg a s)
    (hh : handles cfg a s = some (gates, account, report))
    (hs : s'.server = (s.server.sync cfg.server gates s.clock account report).1) (hx : s'.executed = s.executed)
    (hk : k ∈ s.executed) (hok : k.result.ok = true) {r' : CommandRow} (hr' : r' ∈ s'.server.rows)
    (hid' : r'.id = k.commandId) (he' : r'.expires = true) (hc' : r'.clientOrderId = some c) :
    s'.Answered cfg r' c := by
  rw [polled_rows hs] at hr'
  obtain ⟨r₁, hr₁, rfl⟩ := mem_map.1 hr'
  have hsame := polled_same account s.clock r₁
  rw [polled_id] at hid'
  rw [hsame.expires] at he'
  rw [hsame.clientOrderId] at hc'
  have hadv : Advances (s.server.booked cfg.server gates s.clock account report).service.mappings
      s'.server.service.mappings := by
    rw [hs, Server.sync_booked]
    exact (Server.rewrites_deliver (follows_onward _)).evolves
  obtain ⟨r, hr, ⟨rfl, hno⟩ | ⟨ho, hacc, k₁, hk₁, hid₁, rfl, hout⟩⟩ :=
    booked_cases h.counted.numbered hr₁ (.inr he')
  · have hracc := h.accountId hk hr hid'
    by_cases ho : r₁.isOpen = true
    · left
      by_cases haccount : account = cfg.account
      · subst haccount
        obtain ⟨-, ht⟩ := h.acks ha hh
        rcases ht.punctual k hk hok r₁ hr hid' ho he' (by rw [hc']; rfl) with ⟨k', hk', hid₂⟩ | hfresh
        · exact absurd hid₂ (hno ho hracc k' hk')
        · have hstale := hfresh r₁ hr rfl
          have hp := polled_cases cfg.account s.clock r₁
          generalize r₁.polled cfg.account s.clock = r at hp
          cases hp with
          | kept => exact ho
          | expired hst =>
            rw [hstale] at hst
            cases hst
          | gaveUp _ hexh =>
            rw [exhausted_stale (h.paced r₁ hr hracc he') he' hexh] at hstale
            cases hstale
          | handed => rfl
      · rw [polled_foreign fun heq => haccount (heq.symm.trans hracc)]
        exact ho
    · obtain ⟨hw, hfail⟩ := (h.answered k hk hok r₁ hr hid' he' c hc').resolve_left ho
      rw [polled_settled (by simpa using ho)]
      right
      refine ⟨(hw.advances (Server.rewrites_booked (follows_onward _)).evolves).advances hadv, ?_⟩
      rw [hx]
      exact hfail
  · have haccount : account = cfg.account := hacc.symm.trans (h.accountId hk hr hid')
    subst haccount
    obtain ⟨hacks, ht⟩ := h.acks ha hh
    rw [polled_settled (isOpen_settled _)]
    right
    refine ⟨(h.woken_booked ht hr ho he' hc' hk₁ hid₁ hout).advances hadv, fun hfail => ?_⟩
    rw [hx]
    refine ⟨k₁, hacks k₁ hk₁, hid₁, ?_⟩
    cases hk : k₁.result.ok with
    | false => rfl
    | true => simp [hk] at hfail

end

end Handled

/-- Queueing keeps it. -/
theorem Kept.queued (h : s.Kept cfg) (hcounted : s'.Counted) (htraced : s'.Traced cfg)
    (hrows : Appended s.clock s.server.rows s'.server.rows)
    (hadv : Advances s.server.service.mappings s'.server.service.mappings)
    (hreg : Registered s.server → Registered s'.server)
    (hran : ∀ k ∈ s'.executed, k.result.ok = true →
      (∃ k' ∈ s.executed, k'.result.ok = true ∧ k'.commandId = k.commandId) ∨
        ∀ r ∈ s.server.rows, r.id = k.commandId → r.expires = true → r.isOpen = true)
    (hx : ∀ k ∈ s.executed, k ∈ s'.executed)
    (hinbox : ∀ k ∈ s'.executed, ∃ r ∈ s.server.rows, r.id = k.commandId) : s'.Kept cfg := by
  obtain ⟨new, hnew, hfresh⟩ := hrows
  refine ⟨hcounted, hreg h.registered, htraced, fun r hr hacc he => ?_, fun k hk hok r' hr' hid he c hc => ?_⟩
  · rw [hnew] at hr
    rcases mem_append.1 hr with hr | hr
    · exact h.paced r hr hacc he
    · obtain ⟨i, hi⟩ := mem_iff_getElem?.1 hr
      intro hsent
      rw [(hfresh i r hi).status] at hsent
      cases hsent
  · -- the row was there before
    have hr : r' ∈ s.server.rows := by
      obtain ⟨r, hr, hrid⟩ := hinbox k hk
      have hmem : r ∈ s'.server.rows := hnew ▸ mem_append_left new hr
      rwa [hcounted.numbered.unique hr' hmem (hid.trans hrid.symm)]
    rcases hran k hk hok with ⟨k₀, hk₀, hok₀, hid₀⟩ | hopen
    · rcases h.answered k₀ hk₀ hok₀ r' hr (hid.trans hid₀.symm) he c hc with ho | ⟨hw, hfail⟩
      · exact .inl ho
      · refine .inr ⟨hw.advances hadv, fun hf => ?_⟩
        obtain ⟨k', hk', hk'id⟩ := hfail hf
        exact ⟨k', hx k' hk', hk'id⟩
    · exact .inl (hopen r' hr hid he)

/-- A report keeps it. -/
theorem Kept.handled (h : s.Kept cfg) (ha : InTime cfg a s) (hcounted : s'.Counted) (htraced : s'.Traced cfg)
    {gates : Org} {account : ℕ} {report : FollowerReport} (hh : handles cfg a s = some (gates, account, report))
    (hs : s'.server = (s.server.sync cfg.server gates s.clock account report).1) (hx : s'.executed = s.executed) :
    s'.Kept cfg := by
  have heq := polled_rows hs
  refine ⟨hcounted, hs ▸ h.registered.sync, htraced, fun r' hr' hacc he => ?_,
    fun k hk hok r' hr' hid he c hc => h.answered_handled ha hh hs hx (hx ▸ hk) hok hr' hid he hc⟩
  · rw [heq] at hr'
    obtain ⟨r₁, hr₁, rfl⟩ := mem_map.1 hr'
    have hp := polled_same account s.clock r₁
    rw [hp.accountId] at hacc
    rw [hp.expires] at he
    obtain ⟨hpaced, hqueued⟩ := h.paced_booked hr₁ hacc he
    by_cases haccount : account = cfg.account
    · subst haccount
      obtain ⟨-, ht⟩ := h.acks ha hh
      exact polled_paced hpaced fun hq =>
        ⟨(h.counted.bounded r₁ (hqueued hq)).2 hq, ht.aged r₁ (hqueued hq) hacc he hq⟩
    · rw [polled_foreign fun e => haccount (e.symm.trans hacc)]
      exact hpaced

theorem Kept.step (h : s.Kept cfg) (ha : InTime cfg a s) (hf : fire cfg a s = some s') : s'.Kept cfg := by
  have hcounted := h.counted.step hf
  have htraced := h.traced.step hf
  have hrow : ∀ k ∈ s.executed, ∃ r ∈ s.server.rows, r.id = k.commandId := fun k hk =>
    (h.traced.ran k hk).imp fun _ hr => ⟨hr.1, hr.2.1⟩
  obtain ⟨hserver, hexpert⟩ := steps hf
  cases hexpert with
  | waits hx hd hp hi =>
    cases hserver with
    | queued hrows hadv hreg =>
      refine h.queued hcounted htraced hrows hadv hreg ?_ ?_ ?_
      · exact fun k hk hok => .inl ⟨k, hx ▸ hk, hok, rfl⟩
      · exact fun k hk => hx ▸ hk
      · exact fun k hk => hrow k (hx ▸ hk)
    | handled gates account report hh hs => exact h.handled ha hcounted htraced hh hs hx
  | recalls line rest k hact hinbox hk hs' =>
    subst hs'
    exact h.queued hcounted htraced (.refl _ _) (.refl Onward.refl _) id (fun k hk hok => .inl ⟨k, hk, hok, rfl⟩)
      (fun _ hk => hk) hrow
  | runs line rest k hact hinbox hnone hkdef hs' =>
    subst hs' hact
    refine h.queued hcounted htraced (.refl _ _) (.refl Onward.refl _) id (fun k' hk' hok => ?_)
      (fun k' hk' => mem_cons_of_mem _ hk') fun k' hk' => ?_
    · rcases mem_cons.1 hk' with rfl | hk'
      · by_cases hbefore : ∀ k'' ∈ s.executed, k''.commandId = line.id → k''.result.ok = false
        · right
          intro r hr hid he
          rw [hkdef] at hid
          exact ha line (by simp [hinbox]) hnone hbefore r hr hid he
        · push Not at hbefore
          obtain ⟨k₀, hk₀, hid₀, hok₀⟩ := hbefore
          exact .inl ⟨k₀, hk₀, by simpa using hok₀, by rw [hkdef]; exact hid₀⟩
      · exact .inl ⟨k', hk', hok, rfl⟩
    · rcases mem_cons.1 hk' with rfl | hk'
      · obtain ⟨-, r, hr, hs⟩ := h.traced.inbox line (hinbox ▸ mem_cons_self)
        exact ⟨r, hr, by rw [hkdef]; exact hs.id⟩
      · exact hrow k' hk'

/-! ### Executed opens -/

/-- **An executed open keeps its command and its mapping.**  In every run whose reports come in time, for every
terminal: a copy's open or pending order that the terminal has executed is `failed` only if the terminal also
refused it; once it is settled its mapping is there and not pending; and the expiry and the giving up of the next
report leave that mapping as the acknowledgements and deals have left it. -/
theorem executed_open_kept {t : τ} (h : Machine.Run (fire cfg) (InTime cfg) (init t) s) {k : Ack}
    (hk : k ∈ s.executed) (hok : k.result.ok = true) {r : CommandRow} (hr : r ∈ s.server.rows)
    (hid : r.id = k.commandId) (he : r.expires = true) {c : ClientOrderId} (hc : r.clientOrderId = some c) :
    (r.status = .failed → ∃ k' ∈ s.executed, k'.commandId = r.id ∧ k'.result.ok = false) ∧
      (r.isOpen = false → ∃ m, s.server.service.mappings.find c = some m ∧
        (m.slaveAccountId = cfg.account → m.status ≠ .pending)) ∧
      ∀ a gates account report, InTime cfg a s → handles cfg a s = some (gates, account, report) →
        ((s.server.booked cfg.server gates s.clock account report).deliver s.clock
          account).1.service.mappings.find c =
          (s.server.booked cfg.server gates s.clock account report).service.mappings.find c := by
  have hkept : s.Kept cfg :=
    h.invariant (P := fun s => s.Kept cfg) (kept_init t) fun _ _ _ ha hi hf => hi.step ha hf
  have hans := hkept.answered k hk hok r hr hid he c hc
  refine ⟨fun hf => ?_, fun ho => ?_, fun a gates account report ha hh => ?_⟩
  · rcases hans with ho | ⟨-, hfail⟩
    · simp [isOpen, hf] at ho
    · exact hfail hf
  · rcases hans with ho' | ⟨hw, -⟩
    · rw [ho] at ho'
      cases ho'
    · exact hw
  · exact hkept.find_delivered ha hh hk hok hr hid he hc

/-- The open is executed, the expert restarts and acknowledges it from memory in time. -/
theorem executed_open_kept_sample :
    ∃ s : Exchange Unit, Machine.Run (fire sampleExchange) (InTime sampleExchange) (init ()) s ∧
      s.server.rows.map CommandRow.status = [.done] ∧ s.executed.length = 1 ∧
      ∃ m, s.server.service.mappings.find (.cm 5 2) = some m ∧ (m.slaveAccountId = 2 → m.status ≠ .pending) := by
  obtain ⟨s, hr, hx, r, -, hrows, hstatus, hid, he, hc⟩ : ∃ s : Exchange Unit,
      Machine.Run (fire sampleExchange) (InTime sampleExchange) (init ()) s ∧
      s.executed = [⟨0, ⟨true, some 7, none, none, none⟩⟩] ∧ ∃ r ∈ s.server.rows.head?, s.server.rows = [r] ∧
        r.status = .done ∧ r.id = 0 ∧ r.expires = true ∧ r.clientOrderId = some (.cm 5 2) :=
    Machine.exists_run [.dispatch .live [sampleOpen 5 100 .buy], .tick 1, .poll .live 0 .delivered, .execute,
      .restart, .tick 12,
        .poll .live 0 .delivered, .execute, .tick 31, .poll .live 0 .delivered]
      (init ()) (by decide +kernel)
  have hmem : r ∈ s.server.rows := by
    rw [hrows]
    exact mem_singleton_self r
  have hkept := executed_open_kept hr (hx ▸ mem_singleton_self _) rfl hmem hid he hc
  refine ⟨s, hr, by rw [hrows, map_singleton, hstatus], by rw [hx]; rfl, hkept.2.1 ?_⟩
  rw [isOpen, hstatus]
  rfl

/-- The expert restarts after it ran the open, and polls again when the open's time is over: the command and the
mapping are failed, and the position that the terminal opened has no mapping. -/
theorem executed_open_expired :
    ∃ s : Exchange Unit, Machine.Run (fire sampleExchange) (fun _ _ => True) (init ()) s ∧
      s.executed = [⟨0, ⟨true, some 7, none, none, none⟩⟩] ∧
      s.server.rows.map (fun r => (r.id, r.status, r.clientOrderId)) = [(0, .failed, some (.cm 5 2))] ∧
      (s.server.service.mappings.find (.cm 5 2)).map Mapping.status = some .failed ∧
      (s.server.service.mappings.find (.cm 5 2)).map Mapping.slavePositionId = some none :=
  Machine.exists_run [.dispatch .live [sampleOpen 5 100 .buy], .tick 1, .poll .live 0 .delivered, .execute,
    .restart, .tick 32,
      .poll .live 0 .delivered]
    (init ()) (by decide +kernel)

end Exchange

end Copier.Mt5
