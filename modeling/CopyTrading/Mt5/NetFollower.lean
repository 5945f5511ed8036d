import CopyTrading.Mt5.CopyReport

/-!
# Mt5.NetFollower — the copies of a netting follower add up to its net volumes

On a netting follower that trades copies only, a fill moves the net volume when the command is run, and a mapping
when its acknowledgement is booked.  In between it is an unsettled acknowledgement: the net volume of a symbol is
the sum of the copies' shares and of what the unsettled acknowledgements traded (`Balanced`).  A poll leaves none
of them; so after every poll the copies add up to the net volume, and every deal has changed one mapping
(`copies_add_up`).
-/

namespace Copier.Mt5

open List Option Server

/-! ### The tickets of a book -/

namespace NetBook

/-- Deals are numbered upwards, and no ticket is 0. -/
structure Ordered (t : NetBook) : Prop where
  sorted : (t.deals.map ReportDeal.ticket).Pairwise (· < ·)
  deals : ∀ d ∈ t.deals, d.ticket ≠ 0 ∧ d.ticket ≤ t.lastTicket ∧ d.position ≠ 0
  shown : ∀ symbol p, t.positions.find symbol = some p → p.ticket ≠ 0 ∧ p.identifier ≠ 0

variable {t : NetBook} {p p' : NetPosition} {symbol : String} {side : Side} {volume order : ℕ} {levels : Levels}

theorem ordered_flat (market : Market) : (flat market).Ordered :=
  ⟨.nil, forall_mem_nil _, fun symbol p hp => by simp [flat] at hp⟩

/-- A fill keeps the identifier, and the ticket unless it flips the position. -/
theorem meet_tickets (h : p.meet side volume order levels = some p') :
    p'.identifier = p.identifier ∧ (p'.ticket = p.ticket ∨ p'.ticket = order) := by
  unfold NetPosition.meet at h
  split_ifs at h
  · cases h
    exact ⟨rfl, .inl rfl⟩
  · cases h
    exact ⟨rfl, .inl rfl⟩
  · cases h
    exact ⟨rfl, .inr rfl⟩

theorem Ordered.filled (h : t.Ordered) (ho : order ≠ 0) (hp : t.filled symbol side volume order levels = some p) :
    p.ticket ≠ 0 ∧ p.identifier ≠ 0 := by
  unfold NetBook.filled at hp
  split at hp
  · split_ifs at hp
    cases hp
    exact ⟨ho, ho⟩
  · next q hq =>
    obtain ⟨hid, hticket⟩ := meet_tickets hp
    refine ⟨?_, hid ▸ (h.shown symbol q hq).2⟩
    rcases hticket with hticket | hticket
    · exact hticket ▸ (h.shown symbol q hq).1
    · exact hticket ▸ ho

theorem Ordered.fill (h : t.Ordered) (ho : order ≠ 0) : (t.fill symbol side volume order levels).Ordered := by
  have hpos : (t.dealFor symbol side volume order).position ≠ 0 := by
    unfold dealFor
    cases hp : t.positions.find symbol with
    | none => exact ho
    | some p => exact (h.shown symbol p hp).2
  refine ⟨?_, fun d hd => ?_, fun symbol' p hp => ?_⟩
  · show ((t.deals ++ [t.dealFor symbol side volume order]).map ReportDeal.ticket).Pairwise (· < ·)
    rw [map_append, pairwise_append]
    refine ⟨h.sorted, pairwise_singleton _ _, fun a ha b hb => ?_⟩
    obtain ⟨d, hd, rfl⟩ := List.mem_map.1 ha
    rw [mem_singleton.1 hb]
    exact Nat.lt_succ_of_le (h.deals d hd).2.1
  · rcases mem_append.1 hd with hd | hd
    · obtain ⟨h₁, h₂, h₃⟩ := h.deals d hd
      exact ⟨h₁, h₂.trans (Nat.le_succ _), h₃⟩
    · rw [mem_singleton.1 hd]
      exact ⟨Nat.succ_ne_zero _, le_rfl, hpos⟩
  · rw [find_fill] at hp
    split_ifs at hp
    · exact h.filled ho hp
    · exact h.shown symbol' p hp

/-- An amend moves no volume and makes no deal. -/
theorem doAmend_frame (t : NetBook) (ticket : ℕ) (levels : Levels) :
    (∀ symbol, (t.doAmend ticket levels).1.net symbol = t.net symbol) ∧
      (t.doAmend ticket levels).1.deals = t.deals ∧ (t.doAmend ticket levels).2.deal = none ∧
      (t.Ordered → (t.doAmend ticket levels).1.Ordered) := by
  unfold doAmend
  cases hp : t.byTicket ticket with
  | none => exact ⟨fun _ => rfl, rfl, rfl, id⟩
  | some p =>
    have hfind := (find_of_byTicket hp).2
    have hput : ∀ symbol, (t.positions.put p.symbol (some { p with levels := levels })).find symbol =
        if symbol = p.symbol then some { p with levels := levels } else t.positions.find symbol :=
      Table.find_put t.positions fun q hq => by rw [← some.inj hq]; rfl
    refine ⟨fun symbol => ?_, rfl, rfl, fun h => ⟨h.sorted, h.deals, fun symbol q hq => ?_⟩⟩
    · unfold net
      dsimp only
      rw [hput]
      split_ifs with hs
      · rw [hs, hfind]
        rfl
      · rfl
    · dsimp only at hq
      rw [hput] at hq
      split_ifs at hq
      · cases hq
        exact h.shown p.symbol p hfind
      · exact h.shown symbol q hq

/-- What a command of a copy, or an amend, does to the book. -/
structure Runs (t t' : NetBook) (r : CommandRow) (res : Result) : Prop where
  ordered : t'.Ordered
  net : ∀ symbol, t'.net symbol = t.net symbol + traded symbol (r, ⟨r.id, res⟩)
  deals : ∃ new, t'.deals = t.deals ++ new ∧ new.map ReportDeal.ticket = res.deal.toList
  amend : r.payload.kind = .amend → res.deal = none
  market : r.payload.kind = .openMarket → res.ok = true ∧ 0 < res.volume.getD 0 ∧ ∀ π ∈ res.position, π ≠ 0

theorem runs_amend (h : t.Ordered) (specs : String → Option SymbolSpec) {r : CommandRow}
    (hk : r.payload.kind = .amend) : Runs t (exec specs r.payload t).1 r (exec specs r.payload t).2 := by
  have hmarket : r.market = none := market_none (by rw [hk]; exact nofun)
  cases hp : r.payload with
  | amend ticket levels =>
    obtain ⟨hnet, hdeals, hdeal, hord⟩ := doAmend_frame t ticket levels
    refine ⟨hord h, fun symbol => ?_, ⟨[], ?_, ?_⟩, fun _ => hdeal, fun hk' => ?_⟩
    · rw [show (exec specs (.amend ticket levels) t).1.net symbol = t.net symbol from hnet symbol]
      simp [traded, hmarket]
    · rw [append_nil]
      exact hdeals
    · rw [show (exec specs (.amend ticket levels) t).2.deal = none from hdeal]
      rfl
    · rw [hk] at hk'
      cases hk'
  | _ =>
    rw [hp] at hk
    cases hk

theorem runs_market (h : t.Ordered) {specs : String → Option SymbolSpec} {r : CommandRow}
    (hk : r.payload.kind = .openMarket) (hd : (exec specs r.payload t).2.deal.isSome = true) :
    Runs t (exec specs r.payload t).1 r (exec specs r.payload t).2 := by
  cases hp : r.payload with
  | openMarket symbol side volume levels comment =>
    have hmarket : r.market = some (symbol, side) := by simp [CommandRow.market, hp]
    have hexec : exec specs r.payload t = t.doOpen specs symbol side volume levels := by rw [hp]; rfl
    rw [← hp, hexec]
    rw [hexec] at hd
    rcases doOpen_cases t specs symbol side volume levels with href | ⟨spec, v, -, hpos, -, hfill⟩
    · rw [href] at hd
      cases hd
    · rw [hfill]
      refine ⟨h.fill (Nat.succ_ne_zero _), fun symbol' => ?_, ⟨_, rfl, rfl⟩, fun hk' => ?_, fun _ =>
        ⟨rfl, hpos, ?_⟩⟩
      · rw [net_fill]
        simp [traded, hmarket, eq_comm]
      · rw [hk] at hk'
        cases hk'
      · intro π hπ
        obtain ⟨p, hp, rfl⟩ := map_eq_some_iff.1 hπ
        exact (h.filled (Nat.succ_ne_zero _) hp).1
  | _ =>
    rw [hp] at hk
    cases hk

end NetBook

/-! ### The follower -/

namespace Exchange

/-- The follower trades copies only: it is sent market orders of copies and amends and does nothing by itself,
every market order names its deal, a close takes no more than its copy holds, and a report brings the deals that
its acknowledgements name.  The expert does not restart and gets no old reply; if a reply is lost, its opens can be
sent again. -/
def CopyTrades (server : ServerConfig) (account : ℕ) (specs : String → Option SymbolSpec) :
    ExchangeAction NetBook.Move → Exchange NetBook → Prop
  | .dispatch gates intents, s => OnlyCopies account (s.server.dispatch server gates s.clock intents).rows
  | .operate account' _, _ => account' ≠ account
  | .report _ account' _, _ => account' ≠ account
  | .poll gates count fate, s =>
    (∀ k ∈ s.expert.pendingAcks, ∀ t ∈ k.result.deal,
      t ∈ (s.newDeals (netConfig server account specs) count).map ReportDeal.ticket) ∧
      match fate with
      | .delivered => True
      | .replyLost => ∀ r ∈ s.reply (netConfig server account specs) gates account
          (s.body (netConfig server account specs) count), r.expires = true → r.attempts + 1 < maxAttempts
      | .stale .. => False
  | .execute, s => ∀ line ∈ s.expert.inbox.head?, line.payload.kind = .openMarket →
      let res := (NetBook.exec specs line.payload s.terminal).2
      res.deal.isSome = true ∧
        (line.closing = true → ∀ c ∈ line.clientOrderId, ∀ m ∈ s.server.service.mappings.find c,
        res.volume.getD 0 ≤ m.volume)
  | .own (.market _), _ => True
  | .own _, _ => False
  | .restart, _ => False
  | _, _ => True

instance (server : ServerConfig) (account : ℕ) (specs : String → Option SymbolSpec)
    (a : ExchangeAction NetBook.Move)
    (s : Exchange NetBook) : Decidable (CopyTrades server account specs a s) := by
  induction a using ExchangeAction.casesOn with
  | poll gates count fate => induction fate using Fate.casesOn <;> (dsimp only [CopyTrades]; infer_instance)
  | own m => induction m using NetBook.Move.casesOn <;> (dsimp only [CopyTrades]; infer_instance)
  | _ => dsimp only [CopyTrades]; infer_instance

variable {server : ServerConfig} {account : ℕ} {specs : String → Option SymbolSpec} {s s' : Exchange NetBook}
  {a : ExchangeAction NetBook.Move} {log : List (ℕ × ClientOrderId)}

/-- The acknowledgements that are not settled yet. -/
def unsettled (account : ℕ) (s : Exchange NetBook) : List (CommandRow × Ack) :=
  unsettledOf account s.server.rows s.expert.pendingAcks

/-- **The net volumes are the copies' shares and what is not settled yet**; every deal is in the log, or named by
an unsettled acknowledgement. -/
structure Balanced (server : ServerConfig) (account : ℕ) (specs : String → Option SymbolSpec)
    (s : Exchange NetBook)
    (log : List (ℕ × ClientOrderId)) : Prop where
  counted : s.Counted
  registered : Registered s.server
  traced : s.Traced (netConfig server account specs)
  ordered : s.terminal.Ordered
  only : OnlyCopies account s.server.rows
  opposed : Opposed s.server.rows
  sound : Sound account s.server.rows s.server.service.mappings
  distinct : (s.expert.pendingAcks.map Ack.commandId ++ s.queue).Nodup
  lines : ∀ line ∈ s.expert.inbox, ∃ r ∈ s.server.rows, SameLabel line r ∧ r.isOpen = true
  done : ∀ k ∈ s.expert.done, ∀ r ∈ s.server.rows, r.accountId = account → r.id = k.commandId → r.isOpen = true →
    k ∈ s.expert.pendingAcks
  tries : ∀ r ∈ s.server.rows, r.accountId = account → r.expires = true → r.status = .sent →
    r.id ∈ s.queue ∨ r.id ∈ s.expert.pendingAcks.map Ack.commandId ∨ r.attempts < maxAttempts
  amends : ∀ x ∈ s.unsettled account, x.1.payload.kind = .amend → x.2.result.deal = none
  filled : ∀ x ∈ s.unsettled account, x.1.payload.kind = .openMarket →
    Filled s.server.service.mappings s.terminal.deals x.1 x.2.result
  named : ∀ d ∈ s.terminal.deals, s.server.watermark account < d.ticket →
    ∃ x ∈ s.unsettled account, x.2.result.deal = some d.ticket
  net : ∀ symbol, s.terminal.net symbol =
    copied account s.server symbol + ((s.unsettled account).map (traded symbol)).sum
  logged : (log.map Prod.fst ++ (s.unsettled account).filterMap fun x => x.2.result.deal).Perm
    (s.terminal.deals.map ReportDeal.ticket)

theorem balanced_init (market : Market) : (init (NetBook.flat market)).Balanced server account specs [] where
  counted := counted_init _
  registered := registered_init _
  traced := traced_init _
  ordered := NetBook.ordered_flat market
  only := ⟨by simp [init], by simp [init], by simp [init]⟩
  opposed := by simp [init, Opposed]
  sound := ⟨by simp [init], by simp [init], by simp [init]⟩
  distinct := by simp [init, queue]
  lines := by simp [init]
  done := by simp [init]
  tries := by simp [init]
  amends := by simp [unsettled, unsettledOf, init]
  filled := by simp [unsettled, unsettledOf, init]
  named := by simp [init, NetBook.flat]
  net := by simp [init, NetBook.flat, NetBook.net, copied, Table.sum, unsettled, unsettledOf]
  logged := by simp [init, NetBook.flat, unsettled, unsettledOf]

theorem Balanced.lt (h : s.Balanced server account specs log) {k : Ack} (hk : k ∈ s.executed) :
    k.commandId < s.server.rows.length := by
  obtain ⟨r, hr, hid, -⟩ := h.traced.ran k hk
  rw [← hid]
  exact h.counted.numbered.lt hr

theorem Balanced.mapping (h : s.Balanced server account specs log) {x : CommandRow × Ack}
    (hx : x ∈ s.unsettled account) : ∀ c ∈ x.1.clientOrderId, ∃ m, s.server.service.mappings.find c = some m ∧
      m.slaveAccountId = account := by
  intro c hc
  obtain ⟨hr, -, ha, -⟩ := mem_unsettledOf hx
  obtain ⟨m, -, hm, hacc⟩ := h.registered.mapping h.sound hr hc
  exact ⟨m, hm, hacc.trans ha⟩

/-- A step beside the follower: its terminal trades nothing and its expert does nothing. -/
structure Aside (account : ℕ) (s s' : Exchange NetBook) : Prop where
  expert : s'.expert = s.expert
  positions : s'.terminal.positions = s.terminal.positions
  deals : s'.terminal.deals = s.terminal.deals
  lastTicket : s'.terminal.lastTicket = s.terminal.lastTicket
  rows : Apart account s.server.rows s'.server.rows
  mappings : Beside account s.server.service.mappings s'.server.service.mappings
  watermark : s'.server.watermark account = s.server.watermark account
  only : OnlyCopies account s'.server.rows
  opposed : Opposed s'.server.rows

theorem Aside.unsettled (hb : s.Aside account s') (h : s.Balanced server account specs log)
    (hf : fire (netConfig server account specs) a s = some s') : s'.unsettled account = s.unsettled account := by
  unfold Exchange.unsettled
  rw [hb.expert]
  exact unsettledOf_apart hb.rows h.counted.numbered (h.counted.step hf).numbered fun k hk =>
    h.lt (h.traced.pending k hk)

/-- **What happens beside the follower leaves it balanced.** -/
theorem Balanced.beside (h : s.Balanced server account specs log)
    (hf : fire (netConfig server account specs) a s = some s')
    (hb : s.Aside account s') : s'.Balanced server account specs log := by
  have hun := hb.unsettled h hf
  obtain ⟨he, hpos, hdeals, hlast, hrows, hms, hw, honly, hopp⟩ := hb
  have hcounted := h.counted.step hf
  have hqueue : s'.queue = s.queue := by rw [queue, he, queue]
  have hnet : ∀ symbol, s'.terminal.net symbol = s.terminal.net symbol := fun symbol => by
    rw [NetBook.net, hpos, NetBook.net]
  refine ⟨hcounted, registered_step h.registered hf, h.traced.step hf, ⟨?_, ?_, ?_⟩, honly, hopp,
    h.sound.beside hms fun _ _ => hrows.openPayload_some, ?_, ?_, ?_, ?_, ?_, ?_, ?_, ?_, ?_⟩
  · exact hdeals ▸ h.ordered.sorted
  · exact hdeals ▸ hlast ▸ h.ordered.deals
  · exact hpos ▸ h.ordered.shown
  · rw [he, hqueue]
    exact h.distinct
  · intro line hline
    rw [he] at hline
    obtain ⟨r, hr, hs, ho⟩ := h.lines line hline
    exact ⟨r, hrows.mem hr (hs.accountId.trans (h.traced.inbox line hline).1), hs, ho⟩
  · intro k hk r hr ha hid ho
    rw [he] at hk ⊢
    obtain ⟨r₀, hr₀, hid₀, ha₀⟩ := h.traced.ran k (h.traced.done k hk)
    -- a command that was run is no new row
    obtain rfl : r₀ = r := hcounted.numbered.unique (hrows.mem hr₀ ha₀) hr (hid₀.trans hid.symm)
    exact h.done k hk r₀ hr₀ ha₀ hid ho
  · intro r hr ha hx hst
    rw [he, hqueue]
    rcases hrows.old hr ha with hr | hq
    · exact h.tries r hr ha hx hst
    · rw [hst] at hq
      cases hq
  · rw [hun]
    exact h.amends
  · rw [hun, hdeals]
    exact fun x hx hk => (h.filled x hx hk).beside hms (fun _ hd => hd) (h.mapping hx)
  · rw [hun, hdeals, hw]
    exact h.named
  · intro symbol
    rw [hun, hnet, h.net symbol, copied, copied, hms.sum_share h.sound fun _ _ => hrows.openPayload_some]
  · rw [hun, hdeals]
    exact h.logged

/-- A line that is still to be executed has not been. -/
theorem Balanced.fresh (h : s.Balanced server account specs log) {line : CommandRow}
    (hline : line ∈ s.expert.inbox) :
    s.expert.findDone line.id = none := by
  cases hk : s.expert.findDone line.id with
  | none => rfl
  | some k =>
    obtain ⟨r, hr, hs, ho⟩ := h.lines line hline
    have hid : k.commandId = line.id := by simpa using find?_some hk
    have hmem := h.done k (mem_reverse.1 (mem_of_find?_eq_some hk)) r hr
      (hs.accountId.trans (h.traced.inbox line hline).1) (hs.id.trans hid.symm) ho
    have hdisj := (nodup_append.1 h.distinct).2.2 _ (List.mem_map_of_mem hmem) _ (List.mem_map_of_mem hline)
    exact absurd hid hdisj

/-- The command of row `r` is run, with the acknowledgement `k`. -/
structure Ran (account : ℕ) (specs : String → Option SymbolSpec) (s s' : Exchange NetBook) (line r : CommandRow)
    (k : Ack) : Prop where
  head : s.expert.inbox = line :: s'.expert.inbox
  label : SameLabel line r
  row : r ∈ s.server.rows
  mine : r.accountId = account
  ack : k = ⟨r.id, (NetBook.exec specs r.payload s.terminal).2⟩
  terminal : s'.terminal = (NetBook.exec specs r.payload s.terminal).1
  server : s'.server = s.server
  pending : s'.expert.pendingAcks = s.expert.pendingAcks ++ [k]
  done : ∀ k' ∈ s'.expert.done, k' ∈ s.expert.done ∨ k' = k
  unsettled : s'.unsettled account = s.unsettled account ++ [(r, k)]
  runs : NetBook.Runs s.terminal s'.terminal r k.result

theorem Balanced.ran (h : s.Balanced server account specs log) (ha : CopyTrades server account specs .execute s)
    (hf : fire (netConfig server account specs) .execute s = some s') : ∃ line r k,
      s.Ran account specs s' line r k := by
  obtain ⟨line, rest, hinbox, ⟨k, hk, -⟩ | ⟨k, -, hkdef, hs'⟩⟩ := execute_cases hf
  · have hfresh := h.fresh (hinbox ▸ mem_cons_self : line ∈ s.expert.inbox)
    rw [hk] at hfresh
    cases hfresh
  have hline : line ∈ s.expert.inbox := hinbox ▸ mem_cons_self
  obtain ⟨r, hr, hs, ho⟩ := h.lines line hline
  have hacc : r.accountId = account := hs.accountId.trans (h.traced.inbox line hline).1
  have hk : k = ⟨r.id, (NetBook.exec specs r.payload s.terminal).2⟩ := by
    rw [hkdef, hs.id, hs.payload]
    rfl
  have hterm : s'.terminal = (NetBook.exec specs r.payload s.terminal).1 := by
    rw [hs', hs.payload]
    rfl
  have hserver : s'.server = s.server := by rw [hs']
  have hpend : s'.expert.pendingAcks = s.expert.pendingAcks ++ [k] := by
    rw [hs']
    rfl
  refine ⟨line, r, k, ?_, hs, hr, hacc, hk, hterm, hserver, hpend, fun k' hk' => ?_, ?_, ?_⟩
  · rw [hs', hinbox]
    rfl
  · rw [hs'] at hk'
    rcases mem_append.1 hk' with hk' | hk'
    · left
      split_ifs at hk'
      · exact mem_of_mem_tail hk'
      · exact hk'
    · exact .inr (mem_singleton.1 hk')
  · unfold Exchange.unsettled
    rw [hserver, hpend, hk]
    exact unsettledOf_append h.counted.numbered hr ho hacc _
  · rw [hterm, hk]
    rcases h.only.copies r hr hacc with hkind | ⟨hkind, -⟩
    · exact NetBook.runs_amend h.ordered specs hkind
    · have hcond := ha line (by rw [hinbox]; rfl)
      rw [← hs.payload] at hcond
      exact NetBook.runs_market h.ordered hkind (hcond hkind).1

/-- A market order that is run has filled, and a close takes no more than its copy holds. -/
theorem Ran.filled {line r : CommandRow} {k : Ack} (hran : s.Ran account specs s' line r k)
    (ha : CopyTrades server account specs .execute s) (hkind : r.payload.kind = .openMarket) :
    Filled s.server.service.mappings s'.terminal.deals r k.result := by
  obtain ⟨new, hdeals, hnew⟩ := hran.runs.deals
  obtain ⟨hok, hpos, hπ⟩ := hran.runs.market hkind
  have hcond := ha line (by rw [hran.head]; rfl)
  rw [← hran.label.payload, ← hran.label.closing, ← hran.label.clientOrderId] at hcond
  obtain ⟨hd, henough⟩ := hcond hkind
  have hres : k.result = (NetBook.exec specs r.payload s.terminal).2 := by rw [hran.ack]
  rw [← hres] at hd henough
  obtain ⟨t, ht⟩ := isSome_iff_exists.1 hd
  refine ⟨hok, hpos, ⟨t, ?_, ht⟩, hπ, henough⟩
  rw [hdeals, map_append, hnew, ht]
  exact mem_append_right _ (mem_singleton_self t)

/-- **A command that is run leaves the follower balanced**: what it traded is not settled yet. -/
theorem Balanced.execute (h : s.Balanced server account specs log)
    (ha : CopyTrades server account specs .execute s)
    (hf : fire (netConfig server account specs) .execute s = some s') : s'.Balanced server account specs log := by
  obtain ⟨line, r, k, hran⟩ := h.ran ha hf
  obtain ⟨hinbox, hs, hr, hacc, hk, hterm, hserver, hpend, hdone, hun, hruns⟩ := id hran
  obtain ⟨new, hdeals, hnew⟩ := hruns.deals
  have hid : k.commandId = line.id := by rw [hk, hs.id]
  have hqueue : s.queue = line.id :: s'.queue := by
    unfold queue
    rw [hinbox]
    rfl
  have hsub : ∀ d ∈ s.terminal.deals, d ∈ s'.terminal.deals := fun d hd => hdeals ▸ mem_append_left new hd
  refine ⟨h.counted.step hf, registered_step h.registered hf, h.traced.step hf, hruns.ordered, hserver ▸ h.only,
    hserver ▸ h.opposed, hserver ▸ h.sound, ?_, ?_, ?_, ?_, ?_, ?_, ?_, ?_, ?_⟩
  · have hd := h.distinct
    rw [hqueue] at hd
    rw [hpend, map_append, map_singleton, hid, append_assoc]
    exact hd
  · intro line' hline'
    rw [hserver]
    exact h.lines line' (hinbox ▸ mem_cons_of_mem line hline')
  · intro k' hk' r' hr' ha' hid' ho'
    rw [hserver] at hr'
    rw [hpend]
    rcases hdone k' hk' with hk' | rfl
    · exact mem_append_left _ (h.done k' hk' r' hr' ha' hid' ho')
    · exact mem_append_right _ (mem_singleton_self k')
  · intro r' hr' ha' hx hst
    rw [hserver] at hr'
    rw [hpend, map_append, mem_append]
    rcases h.tries r' hr' ha' hx hst with hq | hp | hlt
    · rw [hqueue] at hq
      rcases mem_cons.1 hq with hq | hq
      · exact .inr (.inl (.inr (by rw [hq, ← hid]; exact mem_singleton_self _)))
      · exact .inl hq
    · exact .inr (.inl (.inl hp))
    · exact .inr (.inr hlt)
  · rw [hun]
    intro x hx hkind
    rcases mem_append.1 hx with hx | hx
    · exact h.amends x hx hkind
    · obtain rfl := mem_singleton.1 hx
      exact hruns.amend hkind
  · rw [hun, hserver]
    intro x hx hkind
    rcases mem_append.1 hx with hx | hx
    · exact (h.filled x hx hkind).beside (.refl account _) hsub (h.mapping hx)
    · obtain rfl := mem_singleton.1 hx
      exact hran.filled ha hkind
  · rw [hun, hserver]
    intro d hd hw
    rw [hdeals] at hd
    rcases mem_append.1 hd with hd | hd
    · obtain ⟨x, hx, hdeal⟩ := h.named d hd hw
      exact ⟨x, mem_append_left _ hx, hdeal⟩
    · have hmem : d.ticket ∈ k.result.deal.toList := hnew ▸ List.mem_map_of_mem hd
      exact ⟨(r, k), mem_append_right _ (mem_singleton_self _), mem_toList.1 hmem⟩
  · intro symbol
    rw [hruns.net, h.net symbol, hun, hserver, map_append, sum_append, ← add_assoc]
    have hkr : (r, k) = (r, ⟨r.id, k.result⟩) := by rw [hk]
    rw [hkr]
    simp
  · rw [hun, filterMap_append, ← append_assoc, hdeals, map_append, hnew]
    refine h.logged.append ?_
    cases hd : k.result.deal <;> simp [hd]

/-! ### Polls -/

section Poll

variable {gates : Org} {count : ℕ}

theorem mem_newDeals {τ μ : Type} {cfg : ExchangeConfig τ μ} {s : Exchange τ} {d : ReportDeal}
    (h : d ∈ s.newDeals cfg count) : d ∈ cfg.terminal.deals s.terminal :=
  (mem_filter.1 (mem_of_mem_take h)).1

/-- The report of a poll names the deals it brings. -/
theorem Balanced.reported (h : s.Balanced server account specs log)
    (hacks : ∀ k ∈ s.expert.pendingAcks, ∀ t ∈ k.result.deal,
      t ∈ (s.newDeals (netConfig server account specs) count).map ReportDeal.ticket) :
    s.server.Reported account (s.body (netConfig server account specs) count) where
  numbered := h.counted.numbered
  registered := h.registered
  only := h.only
  opposed := h.opposed
  sound := h.sound
  distinct := (nodup_append.1 h.distinct).1
  tickets := by
    have hsub : (s.newDeals (netConfig server account specs) count).Sublist s.terminal.deals :=
      (take_sublist _ _).trans filter_sublist
    exact (h.ordered.sorted.imp ne_of_lt).sublist (hsub.map _)
  deals d hd := ⟨(h.ordered.deals d (mem_newDeals hd)).1, (h.ordered.deals d (mem_newDeals hd)).2.2⟩
  amends := h.amends
  filled x hx hk := by
    have hf := h.filled x hx hk
    obtain ⟨t, -, hdeal⟩ := hf.deal
    exact { hf with deal := ⟨t, hacks x.2 (mem_unsettledOf hx).2.2.2.2 t hdeal, hdeal⟩ }
  named d hd hw := h.named d (mem_newDeals hd) hw

variable {report : FollowerReport}

/-- No open of a copy is given up: it is acknowledged in the report, or has an attempt left. -/
theorem Balanced.not_exhausted (h : s.Balanced server account specs log) (hinbox : s.expert.inbox = [])
    (hacks : report.acks = s.expert.pendingAcks) {r : CommandRow}
    (hr : r ∈ (s.server.booked server gates s.clock account report).rows) (ha : r.accountId = account)
    (hx : r.expires = true) (hst : r.status = .sent) : r.attempts < maxAttempts := by
  obtain ⟨r₀, hr₀, ⟨rfl, hno⟩ | ⟨-, -, k, -, -, rfl, -⟩⟩ := booked_cases h.counted.numbered hr (.inr hx)
  · have ho : r.isOpen = true := by simp [CommandRow.isOpen, hst]
    rcases h.tries r hr₀ ha hx hst with hq | hp | hlt
    · rw [queue, hinbox] at hq
      cases hq
    · obtain ⟨k, hk, hid⟩ := List.mem_map.1 hp
      exact absurd hid (hno ho ha k (hacks ▸ hk))
    · exact hlt
  · cases hok : k.result.ok <;> simp [hok] at hst

section Booked

variable (h : s.Balanced server account specs log) (hinbox : s.expert.inbox = [])
  (hacks : ∀ k ∈ s.expert.pendingAcks, ∀ t ∈ k.result.deal,
    t ∈ (s.newDeals (netConfig server account specs) count).map ReportDeal.ticket)
  (hs : s'.server = (s.server.sync server gates s.clock account (s.body (netConfig server account specs) count)).1)
include h hs

/-- The row of a command that was run, before the poll and after it. -/
theorem Balanced.polled_row (hcounted : s'.Counted) {k : Ack} (hk : k ∈ s.executed) {r' : CommandRow}
    (hr' : r' ∈ s'.server.rows) (hid : r'.id = k.commandId) : ∃ r ∈ s.server.rows, r.accountId = account ∧
      r.id = k.commandId ∧ (r'.isOpen = true → r.isOpen = true) ∧
      (k ∈ s.expert.pendingAcks → r'.isOpen = false) := by
  obtain ⟨g, new, hrows, hlabel, hopen, -, hclosed, -⟩ := sync_keeps server gates s.clock account
    (s.body (netConfig server account specs) count) h.counted.numbered
  obtain ⟨r, hr, hrid, hra⟩ := h.traced.ran k hk
  have hmem : g r ∈ s'.server.rows := by
    rw [hs, hrows]
    exact mem_append_left _ (List.mem_map_of_mem hr)
  obtain rfl : g r = r' := hcounted.numbered.unique hmem hr' ((hlabel r hr).id.trans (hrid.trans hid.symm))
  exact ⟨r, hr, hra, hrid, hopen r hr, fun hk => hclosed r hr hra (hrid ▸ List.mem_map_of_mem hk)⟩

theorem Balanced.polled_unsettled (hcounted : s'.Counted)
    (hpend : ∀ k ∈ s'.expert.pendingAcks, k ∈ s.expert.pendingAcks) : s'.unsettled account = [] := by
  refine filterMap_eq_nil_iff.2 fun k hk => map_eq_none_iff.2 (find?_eq_none.2 ?_)
  intro r hr hawaits
  simp only [CommandRow.awaits, Bool.and_eq_true, decide_eq_true_eq] at hawaits
  obtain ⟨_, -, -, -, -, hclosed⟩ := h.polled_row hs hcounted (h.traced.pending k (hpend k hk)) hr hawaits.1.1
  rw [hclosed (hpend k hk)] at hawaits
  cases hawaits.1.2

/-- A command that was run is settled, or acknowledged by the report. -/
theorem Balanced.polled_done (hcounted : s'.Counted) {k : Ack} (hk : k ∈ s.expert.done) {r' : CommandRow}
    (hr' : r' ∈ s'.server.rows) (hid : r'.id = k.commandId) : r'.isOpen = false := by
  obtain ⟨r, hr, hra, hrid, hopen, hclosed⟩ := h.polled_row hs hcounted (h.traced.done k hk) hr' hid
  by_contra ho
  exact ho (hclosed (h.done k hk r hr hra hrid (hopen (by simpa using ho))))

include hinbox

/-- No open of a copy is given up, so a delivery changes nothing that a mapping holds. -/
theorem Balanced.beside_delivered :
    Beside account
      (s.server.booked server gates s.clock account
        (s.body (netConfig server account specs) count)).service.mappings
      s'.server.service.mappings := by
  rw [hs, Server.sync_booked]
  refine beside_deliver account fun r hr hc hx hex => ?_
  have hl : Labelled r := by
    obtain ⟨r₀, hr₀, ⟨rfl, -⟩ | ⟨-, -, k, -, -, rfl, -⟩⟩ := booked_cases h.counted.numbered hr (.inl hc)
    · exact h.registered.labelled r hr₀
    · exact (h.registered.labelled r₀ hr₀).congr ⟨rfl, rfl, rfl, rfl, rfl⟩
  obtain ⟨c, hc⟩ := isSome_iff_exists.1 hc
  have hexp : r.expires = true := (hl.kind c hc).resolve_right (by simp [hx])
  simp only [CommandRow.exhausted, Bool.and_eq_true, decide_eq_true_eq] at hex
  exact absurd (h.not_exhausted hinbox rfl hr hex.1.1 hexp hex.2.1) (not_lt.2 hex.2.2)

include hacks

/-- **After a poll the copies add up.** -/
theorem Balanced.polled_copied (symbol : String) : copied account s'.server symbol = s.terminal.net symbol := by
  have hrep := h.reported hacks
  have hside : ∀ c x, openPayload s.server.rows c = some x → openPayload s'.server.rows c = some x := by
    intro c x hx
    rw [hs, openPayload_sync h.counted.numbered]
    exact hx
  rw [copied, (h.beside_delivered hinbox hs).sum_share hrep.sound_booked hside, hrep.sum_booked, h.net symbol]
  rfl

theorem Balanced.polled_sound : Sound account s'.server.rows s'.server.service.mappings := by
  refine (h.reported hacks).sound_booked.beside (h.beside_delivered hinbox hs) fun c x hx => ?_
  rw [hs, openPayload_sync h.counted.numbered]
  exact hx

omit hinbox

/-- After a poll the server has ingested every deal. -/
theorem Balanced.polled_deals {d : ReportDeal} (hd : d ∈ s.terminal.deals) :
    d.ticket ≤ s'.server.watermark account := by
  rw [hs]
  by_contra hw
  obtain ⟨hle, hall⟩ := le_sync_watermark server gates s.clock account
    (s.body (netConfig server account specs) count) s.server
  obtain ⟨x, hx, hdeal⟩ := h.named d hd (hle.trans_lt (not_le.1 hw))
  obtain ⟨d', hd', ht⟩ := List.mem_map.1 (hacks x.2 (mem_unsettledOf hx).2.2.2.2 d.ticket hdeal)
  exact hw (ht ▸ hall d' hd')

include hinbox

/-- **A poll leaves the follower balanced**, with nothing unsettled. -/
theorem Balanced.polled (hf : fire (netConfig server account specs) a s = some s')
    (hterm : s'.terminal = s.terminal)
    (hdone : s'.expert.done = s.expert.done) (hpend : ∀ k ∈ s'.expert.pendingAcks, k ∈ s.expert.pendingAcks)
    (hdist : (s'.expert.pendingAcks.map Ack.commandId ++ s'.queue).Nodup)
    (hlines : ∀ line ∈ s'.expert.inbox, ∃ r ∈ s'.server.rows, SameLabel line r ∧ r.isOpen = true)
    (htries : ∀ r ∈ s'.server.rows, r.accountId = account → r.expires = true → r.status = .sent →
      r.id ∈ s'.queue ∨ r.id ∈ s'.expert.pendingAcks.map Ack.commandId ∨ r.attempts < maxAttempts) :
    s'.Balanced server account specs (log ++
      s.server.bookedChanges server gates s.clock account (s.body (netConfig server account specs) count)) := by
  have hcounted := h.counted.step hf
  have hrep := h.reported hacks
  have hun := h.polled_unsettled hs hcounted hpend
  refine ⟨hcounted, registered_step h.registered hf, h.traced.step hf, hterm ▸ h.ordered, ?_, ?_,
    h.polled_sound hinbox hacks hs, hdist, hlines, ?_, htries, ?_, ?_, ?_, ?_, ?_⟩
  · rw [hs]
    exact onlyCopies_sync h.only h.counted.numbered
  · rw [hs]
    exact opposed_sync h.opposed h.counted.numbered
  · intro k hk r hr _ hid ho
    rw [h.polled_done hs hcounted (hdone ▸ hk) hr hid] at ho
    cases ho
  · rw [hun]
    exact forall_mem_nil _
  · rw [hun]
    exact forall_mem_nil _
  · intro d hd hw
    rw [hterm] at hd
    exact absurd (h.polled_deals hacks hs hd) (not_le.2 hw)
  · intro symbol
    rw [hun, hterm, h.polled_copied hinbox hacks hs symbol]
    simp
  · rw [hun, hterm, map_append, hrep.changes, filterMap_nil, append_nil]
    exact h.logged

end Booked

/-- The lines of a reply are open rows. -/
theorem reply_lines {line : CommandRow} (hline : line ∈ (s.server.sync server gates s.clock account report).2) :
    ∃ r ∈ (s.server.sync server gates s.clock account report).1.rows, SameLabel line r ∧ r.isOpen = true := by
  obtain ⟨hmem, hdue⟩ := mem_filter.1 hline
  obtain ⟨r, hr, rfl⟩ := List.mem_map.1 hmem
  have hs := failStale_label account s.clock r
  have hs' := polled_same account s.clock r
  refine ⟨r.polled account s.clock, ?_, ⟨hs'.id.trans hs.id.symm, hs'.accountId.trans hs.accountId.symm,
    hs'.payload.trans hs.payload.symm, hs'.clientOrderId.trans hs.clientOrderId.symm,
    hs'.closing.trans hs.closing.symm⟩, ?_⟩
  · rw [Server.sync_booked]
    simp only [Server.deliver, deliverable, unexpired, List.map_map]
    exact List.mem_map_of_mem hr
  · rw [CommandRow.polled, CommandRow.deliver, if_pos hdue]
    rfl

/-- An open that is sent after a poll is in the reply, or has an attempt left. -/
theorem Balanced.reply_tries (h : s.Balanced server account specs log) (hinbox : s.expert.inbox = [])
    (hacks : report.acks = s.expert.pendingAcks) {r' : CommandRow}
    (hr' : r' ∈ (s.server.sync server gates s.clock account report).1.rows) (ha : r'.accountId = account)
    (hx : r'.expires = true) (hst : r'.status = .sent) :
    r'.attempts < maxAttempts ∨ ∃ line ∈ (s.server.sync server gates s.clock account report).2,
      line.id = r'.id ∧ line.expires = true ∧ line.attempts + 1 = r'.attempts := by
  rw [Server.sync_booked] at hr' ⊢
  simp only [Server.deliver, deliverable, unexpired, List.map_map] at hr'
  obtain ⟨r, hr, rfl⟩ := List.mem_map.1 hr'
  rw [Function.comp_apply] at ha hx hst ⊢
  have hp := polled_cases account s.clock r
  rw [CommandRow.polled] at hp
  generalize (r.failStale account s.clock).deliver account s.clock = r' at hp ha hx hst ⊢
  cases hp with
  | kept => exact .inl (h.not_exhausted hinbox hacks hr ha hx hst)
  | expired | gaveUp => cases hst
  | handed hstale hdue =>
    have hsame : r.failStale account s.clock = r := if_neg (by simp [hstale])
    refine .inr ⟨r, mem_filter.2 ⟨?_, hdue⟩, rfl, hx, rfl⟩
    exact mem_map.2 ⟨r, hr, hsame⟩

/-- **A poll leaves the follower balanced, and nothing unsettled.** -/
theorem Balanced.poll (h : s.Balanced server account specs log) {fate : Fate}
    (ha : CopyTrades server account specs (.poll gates count fate) s)
    (hf : fire (netConfig server account specs) (.poll gates count fate) s = some s') :
    s'.Balanced server account specs (log ++
      s.server.bookedChanges server gates s.clock account (s.body (netConfig server account specs) count)) ∧
    s'.unsettled account = [] := by
  obtain ⟨hinbox, hterm, -, -, hpoll⟩ := poll_cases hf
  obtain ⟨hacks, hfate⟩ := ha
  have hcounted := h.counted.step hf
  cases fate with
  | delivered =>
    obtain ⟨hs, he⟩ := hpoll
    have hreply : s'.expert.inbox =
        (s.server.sync server gates s.clock account (s.body (netConfig server account specs) count)).2 := by
      rw [he]
      rfl
    have hmem : s'.expert.inbox ∈ s'.replies := by
      simp only [fire] at hf
      rw [if_pos hinbox] at hf
      rw [← some.inj hf]
      exact mem_cons_self
    have hpend : ∀ k ∈ s'.expert.pendingAcks, k ∈ s.expert.pendingAcks := by
      rw [he]
      exact forall_mem_nil _
    refine ⟨h.polled hinbox hacks hs hf hterm (by rw [he]; rfl) hpend ?_ ?_ ?_,
      h.polled_unsettled hs hcounted hpend⟩
    · rw [he]
      exact (hcounted.sorted _ hmem).imp ne_of_lt
    · rw [hreply, hs]
      exact fun line hline => reply_lines hline
    · rw [queue, hreply, hs]
      intro r hr hacc hx hst
      rcases h.reply_tries hinbox rfl hr hacc hx hst with hlt | ⟨line, hline, hid, -⟩
      · exact .inr (.inr hlt)
      · exact .inl (hid ▸ List.mem_map_of_mem hline)
  | replyLost =>
    obtain ⟨hs, he⟩ := hpoll
    have hpend : ∀ k ∈ s'.expert.pendingAcks, k ∈ s.expert.pendingAcks := by
      rw [he]
      exact fun k hk => hk
    refine ⟨h.polled hinbox hacks hs hf hterm (by rw [he]) hpend ?_ ?_ ?_, h.polled_unsettled hs hcounted hpend⟩
    · rw [queue, he]
      exact h.distinct
    · rw [he, hinbox]
      exact forall_mem_nil _
    · rw [hs]
      intro r hr hacc hx hst
      rcases h.reply_tries hinbox rfl hr hacc hx hst with hlt | ⟨line, hline, -, hexp, hatt⟩
      · exact .inr (.inr hlt)
      · exact .inr (.inr (hatt ▸ hfate line hline hexp))
  | stale handled reply => exact hfate.elim

end Poll

/-! ### The log -/

/-- The mappings that a report of the follower changes, deal by deal. -/
def record {τ μ : Type} (cfg : ExchangeConfig τ μ) (a : ExchangeAction μ) (s : Exchange τ) :
    List (ℕ × ClientOrderId) :=
  match handles cfg a s with
  | some (gates, account, report) =>
    if account = cfg.account then s.server.bookedChanges cfg.server gates s.clock account report else []
  | none => []

theorem record_none {τ μ : Type} {cfg : ExchangeConfig τ μ} {a : ExchangeAction μ} {s : Exchange τ}
    (h : handles cfg a s = none) : record cfg a s = [] := by
  rw [record, h]

/-- **What a step of a follower of copies can be**: it runs a command, it polls, or it is beside the follower. -/
theorem Balanced.cases (h : s.Balanced server account specs log) (ha : CopyTrades server account specs a s)
    (hf : fire (netConfig server account specs) a s = some s') :
    a = .execute ∨ (∃ gates count fate, a = .poll gates count fate) ∨
      s.Aside account s' ∧ record (netConfig server account specs) a s = [] := by
  have hsame : Apart account s.server.rows s.server.rows := .of_appended (.refl s.clock _)
  cases a with
  | execute => exact .inl rfl
  | poll gates count fate => exact .inr (.inl ⟨gates, count, fate, rfl⟩)
  | restart => exact ha.elim
  | dispatch gates intents =>
    cases hf
    exact .inr (.inr ⟨⟨rfl, rfl, rfl, rfl, .of_appended (appended_send _ _ _ _),
      beside_dispatch account gates _ _,
      rfl, ha, h.opposed.dispatch server gates s.clock intents⟩, record_none rfl⟩)
  | remember levels =>
    cases hf
    exact .inr (.inr ⟨⟨rfl, rfl, rfl, rfl, hsame, .refl account _, rfl, h.only, h.opposed⟩, record_none rfl⟩)
  | operate account' payload =>
    cases hf
    refine .inr (.inr ⟨⟨rfl, rfl, rfl, rfl, .of_appended (.single ⟨rfl, rfl, rfl, rfl⟩),
      .refl account _, rfl, ?_, ?_⟩,
      record_none rfl⟩)
    · have hold : OnlyCopies account (s.server.rows.map id ++
        [queuedRow s.server.rows.length account' server.org s.clock
          payload none false false]) := by
        refine h.only.keeps (fun r _ => .refl r) (fun _ _ ho => ho) (fun r hr => ?_) fun r hr hacc => ?_
        · rw [mem_singleton.1 hr]
          rfl
        · rw [mem_singleton.1 hr] at hacc
          exact absurd hacc ha
      rwa [List.map_id] at hold
    · have hold : Opposed (s.server.rows.map id ++ [queuedRow s.server.rows.length account' server.org s.clock
          payload none false false]) := by
        refine h.opposed.keeps (fun r _ => .refl r) (fun r hr => ?_) fun r hr => ?_
        · rw [mem_singleton.1 hr]
          rfl
        · rw [mem_singleton.1 hr]
          rfl
      rwa [List.map_id] at hold
  | tick now =>
    simp only [fire] at hf
    split_ifs at hf with hle
    cases hf
    exact .inr (.inr ⟨⟨rfl, rfl, rfl, rfl, hsame, .refl account _, rfl, h.only, h.opposed⟩, record_none rfl⟩)
  | report gates account' report =>
    cases hf
    have hne : account' ≠ account := ha
    refine .inr (.inr ⟨⟨rfl, rfl, rfl, rfl, apart_sync h.counted.numbered hne, beside_sync hne, ?_,
      onlyCopies_sync h.only h.counted.numbered, opposed_sync h.opposed h.counted.numbered⟩, if_neg hne⟩)
    show (s.server.sync server gates s.clock account' report).1.watermark account = _
    rw [sync_watermark, Function.update_of_ne hne.symm]
  | own m =>
    cases m with
    | market m =>
      obtain rfl : { s with terminal := { s.terminal with market := m } } = s' := some.inj hf
      exact .inr (.inr ⟨⟨rfl, rfl, rfl, rfl, hsame, .refl account _, rfl, h.only, h.opposed⟩, record_none rfl⟩)
    | _ => exact ha.elim

theorem Balanced.step (h : s.Balanced server account specs log) (ha : CopyTrades server account specs a s)
    (hf : fire (netConfig server account specs) a s = some s') :
    s'.Balanced server account specs (log ++ record (netConfig server account specs) a s) := by
  obtain rfl | ⟨gates, count, fate, rfl⟩ | ⟨hb, hrec⟩ := h.cases ha hf
  · rw [record_none rfl, append_nil]
    exact h.execute ha hf
  · have hrec : record (netConfig server account specs) (.poll gates count fate) s
      = s.server.bookedChanges server gates
        s.clock account (s.body (netConfig server account specs) count) := by
      cases fate with
      | delivered | replyLost => exact if_pos rfl
      | stale handled reply => exact ha.2.elim
    rw [hrec]
    exact (h.poll ha hf).1
  · rw [hrec, append_nil]
    exact h.beside hf hb

end Exchange

/-- An exchange with the log of the mappings that the follower's deals have changed. -/
structure Recorded (τ : Type) where
  exchange : Exchange τ
  log : List (ℕ × ClientOrderId)

namespace Recorded

/-- An entry of each key. -/
theorem filter_of_perm {α : Type} {log : List (ℕ × α)} {ts : List ℕ} (h : (log.map Prod.fst).Perm ts)
    (hnd : ts.Nodup)
    {t : ℕ} (ht : t ∈ ts) : ∃ c, log.filter (fun y => y.1 = t) = [(t, c)] := by
  have hlen : (log.filter fun y => y.1 = t).length = 1 := by
    have hcount : (log.map Prod.fst).count t = 1 := by
      rw [h.count_eq]
      exact count_eq_one_of_mem hnd ht
    rw [count, countP_map, countP_eq_length_filter] at hcount
    rw [← hcount]
    congr 2
  obtain ⟨y, hy⟩ := length_eq_one_iff.1 hlen
  have hfst : y.1 = t := by
    have hmem : y ∈ log.filter fun y => y.1 = t := by
      rw [hy]
      exact mem_singleton_self y
    simpa using (mem_filter.1 hmem).2
  exact ⟨y.2, by rw [hy, ← hfst]⟩

def fire {τ μ : Type} (cfg : ExchangeConfig τ μ) (a : ExchangeAction μ) (x : Recorded τ) : Option (Recorded τ) :=
  (x.exchange.fire cfg a).map fun s => ⟨s, x.log ++ x.exchange.record cfg a⟩

variable {server : ServerConfig} {account : ℕ} {specs : String → Option SymbolSpec} {x x' : Recorded NetBook}

/-- **The copies of a netting follower add up.**  For every order of commands, acknowledgements and reports of a
follower that trades copies only, and whatever the other accounts do: after every poll the active copies of a
symbol, signed by the side of their open command, add up to the terminal's net volume, and every deal of the
terminal has changed exactly one mapping. -/
theorem copies_add_up {market : Market}
    (h : Machine.Run (fire (netConfig server account specs))
      (fun a x => Exchange.CopyTrades server account specs a x.exchange) ⟨.init (.flat market), []⟩ x)
    {gates : Org} {count : ℕ} {fate : Fate}
    (ha : Exchange.CopyTrades server account specs (.poll gates count fate) x.exchange)
    (hf : fire (netConfig server account specs) (.poll gates count fate) x = some x') :
    (∀ symbol, copied account x'.exchange.server symbol = x'.exchange.terminal.net symbol) ∧
      ∀ d ∈ x'.exchange.terminal.deals, ∃ c, x'.log.filter (fun y => y.1 = d.ticket) = [(d.ticket, c)] := by
  have hb : x.exchange.Balanced server account specs x.log := by
    refine h.invariant (P := fun x => x.exchange.Balanced server account specs x.log)
      (Exchange.balanced_init market) fun a y z ha hi hf => ?_
    obtain ⟨s, hs, rfl⟩ := map_eq_some_iff.1 hf
    exact hi.step ha hs
  obtain ⟨s, hs, rfl⟩ := map_eq_some_iff.1 hf
  have hb' := hb.step ha hs
  have hun := (hb.poll ha hs).2
  refine ⟨fun symbol => ?_, fun d hd => ?_⟩
  · have hnet := hb'.net symbol
    rw [hun] at hnet
    simpa using hnet.symm
  · have hperm := hb'.logged
    rw [hun, filterMap_nil, append_nil] at hperm
    exact filter_of_perm hperm (hb'.ordered.sorted.imp ne_of_lt) (List.mem_map_of_mem hd)

/-- A copy of 100 is bought, one of 250 sold, which flips the net position, and 40 of the first are closed; the
last reply is lost. -/
theorem copies_add_up_flipped :
    ∃ x x' : Recorded NetBook, Machine.Run (fire (netConfig nettingAccounts 2 anyLots))
        (fun a x => Exchange.CopyTrades nettingAccounts 2 anyLots a x.exchange)
        ⟨.init Exchange.sampleBook, []⟩ x ∧
      fire (netConfig nettingAccounts 2 anyLots) (.poll .live 9 .replyLost) x = some x' ∧
      x'.exchange.terminal.net "EURUSD" = -190 ∧ x'.log = [(1, .cm 5 2), (2, .cm 6 2), (3, .cm 5 2)] ∧
      copied 2 x'.exchange.server "EURUSD" = x'.exchange.terminal.net "EURUSD" ∧
      ∀ d ∈ x'.exchange.terminal.deals, ∃ c, x'.log.filter (fun y => y.1 = d.ticket) = [(d.ticket, c)] := by
  obtain ⟨x, hr, ha, hnext⟩ : ∃ x : Recorded NetBook,
      Machine.Run (fire (netConfig nettingAccounts 2 anyLots))
        (fun a x => Exchange.CopyTrades nettingAccounts 2 anyLots a x.exchange)
        ⟨.init Exchange.sampleBook, []⟩ x ∧
      Exchange.CopyTrades nettingAccounts 2 anyLots (.poll .live 9 .replyLost) x.exchange ∧
      ((fire (netConfig nettingAccounts 2 anyLots) (.poll .live 9 .replyLost) x).any fun x' =>
        x'.exchange.terminal.net "EURUSD" = -190 ∧
          x'.log = [(1, .cm 5 2), (2, .cm 6 2), (3, .cm 5 2)]) = true :=
    Machine.exists_of_fireAll
      (fun (a : ExchangeAction NetBook.Move) (x : Recorded NetBook) h =>
        of_decide_eq_true (p := Exchange.CopyTrades nettingAccounts 2 anyLots a x.exchange) h)
      [.dispatch .live [Exchange.sampleOpen 5 100 .buy], .tick 1, .poll .live 9 .delivered, .execute,
        .dispatch .live [Exchange.sampleOpen 6 250 .sell], .poll .live 9 .delivered, .execute,
          .poll .live 9 .delivered,
        .dispatch .live [Exchange.sampleClose 5 40], .tick 2, .poll .live 9 .delivered, .execute]
      ⟨.init Exchange.sampleBook, []⟩ (by decide +kernel)
  obtain ⟨x', hf, hx'⟩ := (any_eq_true _ _).1 hnext
  obtain ⟨hnet, hlog⟩ := of_decide_eq_true hx'
  obtain ⟨hsum, hdeals⟩ := copies_add_up hr ha hf
  exact ⟨x, x', hr, hf, hnet, hlog, hsum "EURUSD", hdeals⟩

end Recorded

end Copier.Mt5
