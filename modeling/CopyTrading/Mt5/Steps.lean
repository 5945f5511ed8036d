import CopyTrading.Mt5.Booked

/-!
# Mt5.Steps — what a step of the exchange does

The server queues commands or handles a report (`ServerStep`); the expert waits, answers a line from memory or has
it run (`ExpertStep`).  A command keeps its label (`SameLabel`), so the lines that the expert holds are rows of its
account (`Traced`).
-/

namespace Copier.Mt5.Exchange

open List

variable {τ μ : Type} {cfg : ExchangeConfig τ μ} {s s' : Exchange τ} {a : ExchangeAction μ}
  {gates : Org}

/-- The report that a step gives to the server. -/
def handles (cfg : ExchangeConfig τ μ) : ExchangeAction μ → Exchange τ → Option (Org × ℕ × FollowerReport)
  | .poll _ _ (.stale false _), _ => none
  | .poll gates count _, s => some (gates, cfg.account, s.body cfg count)
  | .report gates account report, _ => some (gates, account, report)
  | _, _ => none

/-- What happens to the server: commands may be queued, or a report is handled. -/
inductive ServerStep (cfg : ExchangeConfig τ μ) (a : ExchangeAction μ) (s s' : Exchange τ) : Prop where
  | queued : Appended s.clock s.server.rows s'.server.rows →
    Advances s.server.service.mappings s'.server.service.mappings →
    (Registered s.server → Registered s'.server) → ServerStep cfg a s s'
  | handled (gates : Org) (account : ℕ) (report : FollowerReport) :
    handles cfg a s = some (gates, account, report) →
    s'.server = (s.server.sync cfg.server gates s.clock account report).1 → ServerStep cfg a s s'

theorem ServerStep.idle (h : s'.server.rows = s.server.rows)
    (hm : s'.server.service.mappings = s.server.service.mappings) : ServerStep cfg a s s' := by
  refine .queued ?_ ?_ fun hreg => ⟨?_, ?_⟩
  · rw [h]
    exact .refl _ _
  · rw [hm]
    exact .refl Onward.refl _
  · rw [h]
    exact hreg.labelled
  · rw [h, hm]
    exact hreg.known

/-- What happens to the expert: a line of the reply is answered from memory or run, or no command is. -/
inductive ExpertStep (cfg : ExchangeConfig τ μ) (a : ExchangeAction μ) (s s' : Exchange τ) : Prop where
  | waits : s'.executed = s.executed → s'.expert.done = s.expert.done →
    (∀ k ∈ s'.expert.pendingAcks, k ∈ s.expert.pendingAcks) →
    (∀ line ∈ s'.expert.inbox,
      line ∈ s.expert.inbox ∨ line ∈ s'.replies.flatten ∧ line.accountId = cfg.account) → ExpertStep cfg a s s'
  | recalls (line : CommandRow) (rest : List CommandRow) (k : Ack) : a = .execute →
    s.expert.inbox = line :: rest → s.expert.findDone line.id = some k →
    s' = { s with expert := { s.expert with inbox := rest }.pushAck k } → ExpertStep cfg a s s'
  | runs (line : CommandRow) (rest : List CommandRow) (k : Ack) : a = .execute →
    s.expert.inbox = line :: rest → s.expert.findDone line.id = none →
    k = ⟨line.id, (cfg.terminal.exec line.payload s.terminal).2⟩ →
    s' = { s with
      terminal := (cfg.terminal.exec line.payload s.terminal).1
      expert := ({ s.expert with inbox := rest }.rememberDone k).pushAck k
      executed := k :: s.executed } → ExpertStep cfg a s s'

/-- What a poll does, by its fate. -/
theorem poll_cases {count : ℕ} {fate : Fate} (h : fire cfg (.poll gates count fate) s = some s') :
    s.expert.inbox = [] ∧ s'.terminal = s.terminal ∧ s'.executed = s.executed ∧ s'.clock = s.clock ∧
      match fate with
      | .delivered =>
        s'.server = (s.server.sync cfg.server gates s.clock cfg.account (s.body cfg count)).1 ∧
          s'.expert = s.expert.answered (s.newDeals cfg count)
            (s.server.sync cfg.server gates s.clock cfg.account (s.body cfg count)).2
      | .replyLost =>
        s'.server = (s.server.sync cfg.server gates s.clock cfg.account (s.body cfg count)).1 ∧
          s'.expert = s.expert
      | .stale _ reply =>
        (s'.server = (s.server.sync cfg.server gates s.clock cfg.account (s.body cfg count)).1 ∨
          s'.server = s.server) ∧ s'.expert = s.expert.answered (s.newDeals cfg count) reply := by
  simp only [fire] at h
  split_ifs at h with hempty
  cases fate with
  | delivered | replyLost =>
    cases h
    exact ⟨hempty, rfl, rfl, rfl, rfl, rfl⟩
  | stale handled reply =>
    simp only at h
    split_ifs at h
    · cases h
      exact ⟨hempty, rfl, rfl, rfl, .inl rfl, rfl⟩
    · cases h
      exact ⟨hempty, rfl, rfl, rfl, .inr rfl, rfl⟩

/-- What the next line of the reply does. -/
theorem execute_cases (h : fire cfg .execute s = some s') : ∃ line rest, s.expert.inbox = line :: rest ∧
    ((∃ k, s.expert.findDone line.id = some k ∧
        s' = { s with expert := { s.expert with inbox := rest }.pushAck k }) ∨
      ∃ k, s.expert.findDone line.id = none ∧ k = ⟨line.id, (cfg.terminal.exec line.payload s.terminal).2⟩ ∧
        s' = { s with
          terminal := (cfg.terminal.exec line.payload s.terminal).1
          expert := ({ s.expert with inbox := rest }.rememberDone k).pushAck k
          executed := k :: s.executed }) := by
  simp only [fire] at h
  split at h
  · cases h
  · next line rest hinbox =>
    cases h
    refine ⟨line, rest, hinbox, ?_⟩
    unfold executeLine
    split
    · next k hk => exact .inl ⟨k, hk, rfl⟩
    · next hnone => exact .inr ⟨_, hnone, rfl, rfl⟩

theorem steps (h : fire cfg a s = some s') : ServerStep cfg a s s' ∧ ExpertStep cfg a s s' := by
  cases a with
  | dispatch gates intents =>
    cases h
    exact ⟨.queued (appended_send _ _ _ _) (advances_dispatch _ _ _) fun h => h.dispatch intents,
      .waits rfl rfl (fun _ hk => hk) fun _ hl => .inl hl⟩
  | remember levels =>
    cases h
    exact ⟨.idle rfl rfl, .waits rfl rfl (fun _ hk => hk) fun _ hl => .inl hl⟩
  | operate account payload =>
    cases h
    refine ⟨.queued (.single ⟨rfl, rfl, rfl, rfl⟩) (.refl Onward.refl _) fun h =>
      h.congr (.refl Onward.refl _) fun r hr => ?_,
      .waits rfl rfl (fun _ hk => hk) fun _ hl => .inl hl⟩
    rcases mem_append.1 hr with hr | hr
    · exact .inr ⟨r, hr, .refl r⟩
    · rw [mem_singleton.1 hr]
      exact .inl ⟨rfl, rfl⟩
  | tick now =>
    simp only [fire] at h
    split_ifs at h
    cases h
    exact ⟨.idle rfl rfl, .waits rfl rfl (fun _ hk => hk) fun _ hl => .inl hl⟩
  | poll gates count fate =>
    simp only [fire] at h
    split_ifs at h
    cases fate with
    | delivered =>
      cases h
      refine ⟨.handled gates cfg.account _ rfl rfl,
        .waits rfl rfl (forall_mem_nil _) fun line hl => .inr ⟨?_, ?_⟩⟩
      · exact mem_append_left _ hl
      · exact (mem_deliverable_commands hl).1
    | replyLost =>
      cases h
      exact ⟨.handled gates cfg.account _ rfl rfl, .waits rfl rfl (fun _ hk => hk) fun _ hl => .inl hl⟩
    | stale handled reply =>
      simp only at h
      split_ifs at h with hr hh
      · cases h
        subst hh
        refine ⟨.handled gates cfg.account _ rfl rfl,
          .waits rfl rfl (forall_mem_nil _) fun line hl => .inr ⟨?_, hr.2 line hl⟩⟩
        exact mem_append_right _ (mem_flatten.2 ⟨reply, hr.1, hl⟩)
      · cases h
        refine ⟨.idle rfl rfl,
          .waits rfl rfl (forall_mem_nil _) fun line hl => .inr ⟨?_, hr.2 line hl⟩⟩
        exact mem_flatten.2 ⟨reply, hr.1, hl⟩
  | report gates account report =>
    cases h
    exact ⟨.handled gates account report rfl rfl, .waits rfl rfl (fun _ hk => hk) fun _ hl => .inl hl⟩
  | execute =>
    obtain ⟨line, rest, hinbox, ⟨k, hk, rfl⟩ | ⟨k, hnone, hkdef, rfl⟩⟩ := execute_cases h
    · exact ⟨.idle rfl rfl, .recalls line rest k rfl hinbox hk rfl⟩
    · exact ⟨.idle rfl rfl, .runs line rest k rfl hinbox hnone hkdef rfl⟩
  | own m =>
    obtain ⟨t, -, rfl⟩ := Option.map_eq_some_iff.1 h
    exact ⟨.idle rfl rfl, .waits rfl rfl (fun _ hk => hk) fun _ hl => .inl hl⟩
  | restart =>
    cases h
    exact ⟨.idle rfl rfl,
      .waits rfl rfl (forall_mem_nil _) fun _ hl => absurd hl not_mem_nil⟩

theorem registered_init (t : τ) : Registered (init t).server := ⟨by simp [init], by simp [init]⟩

theorem registered_step (h : Registered s.server) (hf : fire cfg a s = some s') : Registered s'.server := by
  cases (steps hf).1 with
  | queued _ _ hreg => exact hreg h
  | handled gates account report _ hs => exact hs ▸ h.sync

/-- The commands that the expert has or had are rows of its account. -/
structure Traced (cfg : ExchangeConfig τ μ) (s : Exchange τ) : Prop where
  done : ∀ k ∈ s.expert.done, k ∈ s.executed
  pending : ∀ k ∈ s.expert.pendingAcks, k ∈ s.executed
  replies : ∀ line ∈ s.replies.flatten, ∃ r ∈ s.server.rows, SameLabel line r
  inbox : ∀ line ∈ s.expert.inbox, line.accountId = cfg.account ∧ ∃ r ∈ s.server.rows, SameLabel line r
  ran : ∀ k ∈ s.executed, ∃ r ∈ s.server.rows, r.id = k.commandId ∧ r.accountId = cfg.account

/-- The rows after a report. -/
theorem polled_rows {account : ℕ} {report : FollowerReport}
    (hs : s'.server = (s.server.sync cfg.server gates s.clock account report).1) :
    s'.server.rows = (s.server.booked cfg.server gates s.clock account report).rows.map
      (CommandRow.polled account s.clock) := by
  rw [hs, Server.sync_booked]
  simp only [Server.deliver, deliverable, unexpired, map_map]
  rfl

/-- A row keeps its label. -/
theorem row_step (hf : fire cfg a s = some s') {line : CommandRow} (h : ∃ r ∈ s.server.rows, SameLabel line r) :
    ∃ r ∈ s'.server.rows, SameLabel line r := by
  obtain ⟨r, hr, hs⟩ := h
  cases rowStep hf with
  | queued ha _ =>
    obtain ⟨new, hrows, -⟩ := ha
    exact ⟨r, hrows ▸ mem_append_left new hr, hs⟩
  | handled account f mid hset ha hrows _ =>
    obtain ⟨new, rfl, -⟩ := ha
    refine ⟨(f r).polled account s.clock, ?_, (hs.trans (settles_same (hset r))).trans (polled_same _ _ _)⟩
    rw [hrows]
    exact mem_map_of_mem (mem_append_left new (mem_map_of_mem hr))

/-- The lines of a reply are rows. -/
theorem reply_step (hf : fire cfg a s = some s')
    (h : ∀ line ∈ s.replies.flatten, ∃ r ∈ s.server.rows, SameLabel line r) :
    ∀ line ∈ s'.replies.flatten, ∃ r ∈ s'.server.rows, SameLabel line r := by
  intro line hline
  cases hstep : rowStep hf with
  | queued ha hr => exact row_step hf (h line (hr ▸ hline))
  | handled account f mid hset ha hrows hreplies =>
    rw [hreplies, flatten_cons] at hline
    rcases mem_append.1 hline with hline | hline
    · obtain ⟨r, hr, rfl⟩ := mem_map.1 (mem_filter.1 hline).1
      refine ⟨r.polled account s.clock, hrows ▸ mem_map_of_mem hr, ?_⟩
      have h₁ := failStale_label account s.clock r
      have h₂ := polled_same account s.clock r
      exact ⟨h₂.id.trans h₁.id.symm, h₂.accountId.trans h₁.accountId.symm, h₂.payload.trans h₁.payload.symm,
        h₂.clientOrderId.trans h₁.clientOrderId.symm, h₂.closing.trans h₁.closing.symm⟩
    · exact row_step hf (h line hline)

theorem traced_init (t : τ) : (init t).Traced cfg := by
  constructor <;> simp [init]

theorem Traced.step (h : s.Traced cfg) (hf : fire cfg a s = some s') : s'.Traced cfg := by
  have hreplies := reply_step hf h.replies
  cases (steps hf).2 with
  | waits hx hd hp hi =>
    refine ⟨?_, ?_, hreplies, fun line hl => ?_, ?_⟩
    · rw [hd, hx]
      exact h.done
    · rw [hx]
      exact fun k hk => h.pending k (hp k hk)
    · rcases hi line hl with hl | ⟨hl, hacc⟩
      · exact ⟨(h.inbox line hl).1, row_step hf (h.inbox line hl).2⟩
      · exact ⟨hacc, hreplies line hl⟩
    · rw [hx]
      intro k hk
      obtain ⟨r, hr, hid, hacc⟩ := h.ran k hk
      obtain ⟨r', hr', hs⟩ := row_step hf ⟨r, hr, .refl r⟩
      exact ⟨r', hr', hs.id.trans hid, hs.accountId.trans hacc⟩
  | recalls line rest k ha hinbox hk hs' =>
    subst hs'
    refine ⟨h.done, forall_mem_append.2 ⟨h.pending, forall_mem_singleton.2 ?_⟩, h.replies, fun l hl => h.inbox l
      (hinbox ▸ mem_cons_of_mem line hl), h.ran⟩
    exact h.done k (mem_reverse.1 (mem_of_find?_eq_some hk))
  | runs line rest k ha hinbox hnone hkdef hs' =>
    subst hs'
    refine ⟨fun k' hk' => ?_, fun k' hk' => ?_, h.replies,
      fun l hl => h.inbox l (hinbox ▸ mem_cons_of_mem line hl), forall_mem_cons.2 ⟨?_, h.ran⟩⟩
    · rcases mem_append.1 hk' with hk' | hk'
      · refine mem_cons_of_mem _ (h.done k' ?_)
        split_ifs at hk'
        · exact mem_of_mem_tail hk'
        · exact hk'
      · exact mem_singleton.1 hk' ▸ mem_cons_self
    · rcases mem_append.1 hk' with hk' | hk'
      · exact mem_cons_of_mem _ (h.pending k' hk')
      · exact mem_singleton.1 hk' ▸ mem_cons_self
    · obtain ⟨hacc, r, hr, hs⟩ := h.inbox line (hinbox ▸ mem_cons_self)
      exact ⟨r, hr, by rw [hkdef]; exact hs.id, hs.accountId.trans hacc⟩

end Copier.Mt5.Exchange
