import CopyTrading.Mt5.NetFollower
import CopyTrading.Reconcile.Remedy

/-!
# Mt5.NetTickets — the ticket that the copies of a netting follower name

A mapping is given the ticket of the net position by its own fill.  A fill that flips the net position, or opens it
again, gives it a new ticket, which the other live copies of the symbol are not told.  Where no fill does that to a
live copy, every active copy names the position of the symbol's last deal (`Aligned`), which is the one that the
terminal shows.
-/

namespace Copier.Mt5

open List Option NetBook

/-! ### The position of the last deal -/

namespace NetBook

/-- The position that the last deal of a symbol names. -/
def stamp (t : NetBook) (symbol : String) : Option ℕ :=
  (t.deals.reverse.find? fun d => d.symbol = symbol).map ReportDeal.position

/-- A position has the ticket that the last deal of its symbol names, and no other symbol has it. -/
structure Named (t : NetBook) : Prop where
  shown : ∀ symbol p, t.positions.find symbol = some p → p.identifier = p.ticket ∧ t.stamp symbol = some p.ticket
  bounded : ∀ symbol π, t.stamp symbol = some π → π ≤ t.lastTicket
  apart : ∀ symbol symbol' π, t.stamp symbol = some π → t.stamp symbol' = some π → symbol = symbol'

variable {t : NetBook} {p p' : NetPosition} {symbol symbol' : String} {side : Side} {volume order : ℕ}
  {levels : Levels}

theorem named_flat (market : Market) : (flat market).Named :=
  ⟨fun symbol p hp => by simp [flat] at hp, fun symbol π h => by simp [flat, stamp] at h,
    fun symbol symbol' π h => by simp [flat, stamp] at h⟩

theorem stamp_fill : (t.fill symbol side volume order levels).stamp symbol' =
    if symbol = symbol' then some (t.dealFor symbol side volume order).position else t.stamp symbol' := by
  have hdeals : (t.fill symbol side volume order levels).deals.reverse =
      t.dealFor symbol side volume order :: t.deals.reverse := by simp [fill]
  unfold stamp
  rw [hdeals, find?_cons]
  by_cases hs : symbol = symbol'
  · simp [hs, dealFor]
  · simp [hs, dealFor]

/-- A fill that does not flip the position keeps its ticket. -/
theorem meet_keeps (hk : p.side = side ∨ volume ≤ p.volume) (h : p.meet side volume order levels = some p') :
    p'.ticket = p.ticket ∧ p'.identifier = p.identifier := by
  unfold NetPosition.meet at h
  split_ifs at h with hside hlt hgt
  · cases h
    exact ⟨rfl, rfl⟩
  · cases h
    exact ⟨rfl, rfl⟩
  · exact absurd (hk.resolve_left hside) (not_le.2 hgt)

variable (order levels) in
/-- A fill on a position, without a flip. -/
theorem Named.fill_on (h : t.Named) (hp : t.positions.find symbol = some p) (hk : p.side = side ∨
    volume ≤ p.volume) :
    (t.fill symbol side volume order levels).Named ∧
      ∀ symbol', (t.fill symbol side volume order levels).stamp symbol' = t.stamp symbol' := by
  obtain ⟨hid, hstamp⟩ := h.shown symbol p hp
  have hsame : ∀ symbol', (t.fill symbol side volume order levels).stamp symbol' = t.stamp symbol' := by
    intro symbol'
    rw [stamp_fill]
    split_ifs with hs
    · rw [← hs, hstamp, ← hid]
      simp [dealFor, hp]
    · rfl
  refine ⟨⟨fun symbol' p' hp' => ?_, fun symbol' π hπ => ?_, fun s₁ s₂ π h₁ h₂ => ?_⟩, hsame⟩
  · rw [hsame]
    rw [find_fill] at hp'
    split_ifs at hp' with hs
    · have hmeet : p.meet side volume order levels = some p' := by
        rw [← hp', filled, hp]
      obtain ⟨hticket, hident⟩ := meet_keeps hk hmeet
      rw [hs, hident, hticket]
      exact ⟨hid, hstamp⟩
    · exact h.shown symbol' p' hp'
  · rw [hsame] at hπ
    exact (h.bounded symbol' π hπ).trans (Nat.le_succ _)
  · rw [hsame] at h₁ h₂
    exact h.apart s₁ s₂ π h₁ h₂

variable (side volume levels) in
/-- A fill that opens a position. -/
theorem Named.fill_new (h : t.Named) (hp : t.positions.find symbol = none) :
    (t.fill symbol side volume (t.lastTicket + 1) levels).Named ∧
      ∀ symbol', symbol' ≠ symbol →
        (t.fill symbol side volume (t.lastTicket + 1) levels).stamp symbol' = t.stamp symbol' := by
  have hnew : (t.fill symbol side volume (t.lastTicket + 1) levels).stamp symbol = some (t.lastTicket + 1) := by
    rw [stamp_fill, if_pos rfl]
    simp [dealFor, hp]
  have hsame : ∀ symbol', symbol' ≠ symbol →
      (t.fill symbol side volume (t.lastTicket + 1) levels).stamp symbol' = t.stamp symbol' := fun symbol' hs => by
    rw [stamp_fill, if_neg hs.symm]
  have hold : ∀ symbol' π, symbol' ≠ symbol →
      (t.fill symbol side volume (t.lastTicket + 1) levels).stamp symbol' = some π → π ≤ t.lastTicket :=
    fun symbol' π hs hπ => h.bounded symbol' π (hsame symbol' hs ▸ hπ)
  refine ⟨⟨fun symbol' p' hp' => ?_, fun symbol' π hπ => ?_, fun s₁ s₂ π h₁ h₂ => ?_⟩, hsame⟩
  · rw [find_fill] at hp'
    split_ifs at hp' with hs
    · rw [hs, hnew]
      unfold filled at hp'
      rw [hp] at hp'
      dsimp only at hp'
      split_ifs at hp'
      cases hp'
      exact ⟨rfl, rfl⟩
    · rw [hsame symbol' hs]
      exact h.shown symbol' p' hp'
  · by_cases hs : symbol' = symbol
    · rw [hs, hnew] at hπ
      exact (some.inj hπ).ge
    · exact (hold symbol' π hs hπ).trans (Nat.le_succ _)
  · by_cases hs₁ : s₁ = symbol <;> by_cases hs₂ : s₂ = symbol
    · rw [hs₁, hs₂]
    · rw [hs₁, hnew] at h₁
      have hle := hold s₂ π hs₂ h₂
      have heq := some.inj h₁
      omega
    · rw [hs₂, hnew] at h₂
      have hle := hold s₁ π hs₁ h₁
      have heq := some.inj h₂
      omega
    · exact h.apart s₁ s₂ π (hsame s₁ hs₁ ▸ h₁) (hsame s₂ hs₂ ▸ h₂)

/-- An amend gives no ticket. -/
theorem Named.doAmend (h : t.Named) (ticket : ℕ) (levels : Levels) :
    (t.doAmend ticket levels).1.Named ∧ ∀ symbol',
      (t.doAmend ticket levels).1.stamp symbol' = t.stamp symbol' := by
  unfold NetBook.doAmend
  cases hp : t.byTicket ticket with
  | none => exact ⟨h, fun _ => rfl⟩
  | some p =>
    refine ⟨⟨fun symbol' q hq => ?_, h.bounded, h.apart⟩, fun _ => rfl⟩
    have hput := Table.find_put t.positions (k := p.symbol) (o := some { p with levels := levels })
      (fun q hq => by rw [← some.inj hq]; rfl) symbol'
    dsimp only at hq
    rw [hput] at hq
    split_ifs at hq with hs
    · cases hq
      rw [hs]
      exact h.shown p.symbol p (find_of_byTicket hp).2
    · exact h.shown symbol' q hq

/-- The ticket that is shown finds its position. -/
theorem Named.byTicket (h : t.Named) (hp : t.positions.find symbol = some p) : t.byTicket p.ticket = some p := by
  have hmem : p ∈ t.positions.rows := (Table.find_eq_some hp).1
  have hsome : (t.byTicket p.ticket).isSome = true := find?_isSome.2 ⟨p, hmem, decide_eq_true rfl⟩
  obtain ⟨q, hq⟩ := isSome_iff_exists.1 hsome
  obtain ⟨hticket, hfind⟩ := find_of_byTicket hq
  have hsymbol : q.symbol = symbol :=
    h.apart q.symbol symbol p.ticket (hticket ▸ (h.shown q.symbol q hfind).2) (h.shown symbol p hp).2
  rw [hsymbol, hp] at hfind
  rwa [some.inj hfind] at hq ⊢

/-- A close at the terminal makes a deal of the ticket's position. -/
theorem Named.deal_of_close (h : t.Named) (hp : t.positions.find symbol = some p) {v : ℕ} {t' : NetBook}
    (hm : t.move (.close p.ticket v) = some t') : ∃ d, t'.deals = t.deals ++ [d] ∧ d.position = p.ticket := by
  simp only [move, h.byTicket hp, bind_some, trade] at hm
  split_ifs at hm
  cases hm
  have hsymbol : p.symbol = symbol := (Table.find_eq_some hp).2
  refine ⟨_, rfl, ?_⟩
  simp [dealFor, hsymbol, hp, (h.shown symbol p hp).1]

end NetBook

/-! ### The tickets of the mappings -/

/-- Every active copy of the account names the position of its symbol's last deal. -/
def NamesLast (account : ℕ) (rows : List CommandRow) (stamp : String → Option ℕ) (ms : Mappings) : Prop :=
  ∀ m ∈ ms.rows, m.slaveAccountId = account → m.status = .active →
    ∀ y, openPayload rows m.clientOrderId = some y → m.slavePositionId = stamp y.1

section NamesLast

variable {account : ℕ} {rows rows' : List CommandRow} {stamp : String → Option ℕ} {ms ms' : Mappings}

theorem NamesLast.beside (h : NamesLast account rows stamp ms) (hs : Sound account rows ms)
    (hb : Beside account ms ms')
    (hside : ∀ c x, openPayload rows c = some x → openPayload rows' c = some x) :
      NamesLast account rows' stamp ms' := by
  intro m' hm' hacc hact y hy
  have hfind : ms'.find m'.clientOrderId = some m' := Table.find_of_mem hm'
  cases hold : ms.find m'.clientOrderId with
  | none => exact absurd hact ((hb.new _ m' hold hfind).2 hacc).1
  | some m =>
    obtain ⟨m₁, hm₁, hacc₁, hkept⟩ := hb.kept _ m hold
    cases hfind.symm.trans hm₁
    obtain ⟨hmem, hkey⟩ := Table.find_eq_some hold
    have hkey : m.clientOrderId = m'.clientOrderId := hkey
    have hmacc : m.slaveAccountId = account := hacc₁.symm.trans hacc
    obtain ⟨hiff, hheld⟩ := hkept hmacc
    obtain ⟨y₀, hy₀⟩ := isSome_iff_exists.1 (hs.sided m hmem hmacc (hiff.1 hact))
    obtain rfl : y₀ = y := some.inj ((hside _ y₀ (hkey ▸ hy₀)).symm.trans hy)
    rw [Mapping.slavePositionId, hheld]
    exact h m hmem hmacc (hiff.1 hact) y₀ hy₀

/-- An open that names the last deal's position, and a close, which names none. -/
theorem NamesLast.apply {j : Job} {m : Mapping} (h : NamesLast account rows stamp ms)
    (hj : j.Ready account rows ms m)
    (hstamp : j.closing = false → ∀ y, openPayload rows j.clientOrderId = some y → stamp y.1 = some j.position) :
    NamesLast account rows stamp (j.apply account ms) := by
  intro m' hm' hacc hact y hy
  rcases hj.mem_apply hm' with hm' | ⟨rfl, hc⟩
  · exact h m' hm' hacc hact y hy
  · rw [hc] at hy
    rw [hj.sets]
    cases hx : j.closing with
    | false => exact (hstamp hx y hy).symm
    | true =>
      have hheld : (m.reduce j.volume).slavePositionId = m.slavePositionId := by
        simp [Mapping.slavePositionId, Mapping.reduce, Function.comp_def]
      rw [if_pos rfl, hheld]
      exact h m hj.mem hj.slaveAccountId (hj.enough hx).1 y (hj.key ▸ hy)

end NamesLast

namespace Server

variable {account : ℕ} {s : Server} {report : FollowerReport} {j : Job}

theorem jobOf_opened {o : AckOutcome} (h : jobOf report o = some j) (hx : j.closing = false) :
    ticketOf report o = some j.position := by
  unfold jobOf at h
  split at h
  · obtain ⟨π, hπ, rfl⟩ := map_eq_some_iff.1 h
    exact hπ
  · cases h
    cases hx
  · cases h

/-- The ticket of a job is one that the terminal showed, or the position of the job's own deal. -/
theorem Reported.job_position (h : Reported account s report) (hj : j ∈ Reported.jobs account s report)
    (hx : j.closing = false) : ∃ x ∈ unsettledOf account s.rows report.acks, x.1.closing = false ∧
      (∀ y, openPayload s.rows j.clientOrderId = some y → x.1.market = some y) ∧
      (x.2.result.position = some j.position ∨
        ∃ d ∈ report.deals, x.2.result.deal = some d.ticket ∧ d.position = j.position) := by
  obtain ⟨x, hmem, hjob⟩ := mem_filterMap.1 hj
  rcases h.copies hmem with hk | ⟨hk, c, hc⟩
  · rw [Reported.jobOf_amend hk] at hjob
    cases hjob
  obtain ⟨-, π, hj'⟩ := h.jobOf_market hmem hk hc
  obtain ⟨y₀, hopen, hy₀⟩ := h.market_eq hmem hk hc
  cases hj'.symm.trans hjob
  dsimp only at hx
  rw [hx] at hy₀
  refine ⟨x, hmem, hx, fun y hy => ?_, ?_⟩
  · cases hopen.symm.trans hy
    exact hy₀
  · have hnone : x.1.payload.position = none := by
      cases hp : x.1.payload <;> rw [hp] at hk <;> first | rfl | cases hk
    have hpos : (x.1.outcome x.2).position = x.2.result.position := by simp [CommandRow.outcome, hnone]
    have hticket := jobOf_opened hjob hx
    unfold ticketOf at hticket
    rw [hpos] at hticket
    rcases or_eq_some_iff.1 hticket with hshown | ⟨-, hdeal⟩
    · exact .inl (filter_eq_some_iff.1 hshown).1
    · obtain ⟨d, hd, hdpos⟩ := map_eq_some_iff.1 (filter_eq_some_iff.1 hdeal).1
      obtain ⟨t, ht, hlook⟩ := bind_eq_some_iff.1 hd
      obtain ⟨hmem', hkey⟩ := key_of_lookup hlook
      exact .inr ⟨d, hmem', by rw [hkey]; exact ht, hdpos⟩

theorem namesLast_booked {cfg : ServerConfig} {gates : Org} {now : ℚ} {stamp : String → Option ℕ}
    (h : Reported account s report) (hs : NamesLast account s.rows stamp s.service.mappings)
    (hjobs : ∀ j ∈ Reported.jobs account s report, j.closing = false →
      ∀ y, openPayload s.rows j.clientOrderId = some y → stamp y.1 = some j.position) :
    NamesLast account s.rows stamp (s.booked cfg gates now account report).service.mappings := by
  rw [h.booked_mappings]
  exact Job.applyAll_invariant hs h.jobs_nodup h.ready fun j hj _ _ hready hs => hs.apply hready (hjobs j hj)

end Server

/-! ### The follower -/

namespace Exchange

variable {b : Books} {ticket : ℕ} {symbol : String}

/-- A market order flips no net position, and opens one only while no copy of its symbol is live: no mapping is
active, and no executed command of the symbol waits for its acknowledgement. -/
def KeepsTicket (account : ℕ) (specs : String → Option SymbolSpec) :
    ExchangeAction NetBook.Move → Exchange NetBook → Prop
  | .execute, s => ∀ line ∈ s.expert.inbox.head?, ∀ y ∈ line.market,
      (∀ p ∈ s.terminal.positions.find y.1,
        p.side = y.2 ∨ (NetBook.exec specs line.payload s.terminal).2.volume.getD 0 ≤ p.volume) ∧
      (s.terminal.positions.find y.1 = none →
        (∀ m ∈ s.server.service.mappings.rows, m.slaveAccountId = account → m.status = .active →
          (openPayload s.server.rows m.clientOrderId).map Prod.fst ≠ some y.1) ∧
        ∀ x ∈ s.unsettled account, x.1.market.map Prod.fst ≠ some y.1)
  | _, _ => True

instance (account : ℕ) (specs : String → Option SymbolSpec) (a : ExchangeAction NetBook.Move)
    (s : Exchange NetBook) :
    Decidable (KeepsTicket account specs a s) := by
  induction a using ExchangeAction.casesOn with
  | execute => dsimp only [KeepsTicket]; infer_instance
  | _ => exact .isTrue trivial

variable {server : ServerConfig} {account : ℕ} {specs : String → Option SymbolSpec} {s s' : Exchange NetBook}
  {a : ExchangeAction NetBook.Move} {log : List (ℕ × ClientOrderId)}

/-- **The copies name the last deal's position**, and so do the opens that are not settled yet. -/
structure Aligned (account : ℕ) (s : Exchange NetBook) : Prop where
  named : s.terminal.Named
  copies : NamesLast account s.server.rows s.terminal.stamp s.server.service.mappings
  acks : ∀ x ∈ s.unsettled account, x.1.closing = false → ∀ y, x.1.market = some y →
    (∀ π ∈ x.2.result.position, s.terminal.stamp y.1 = some π) ∧
      ∀ d ∈ s.terminal.deals, x.2.result.deal = some d.ticket → s.terminal.stamp y.1 = some d.position

theorem aligned_init (market : Market) : (init (NetBook.flat market)).Aligned account where
  named := named_flat market
  copies := by simp [init, NamesLast]
  acks := by simp [unsettled, unsettledOf, init]

theorem Aligned.beside (h : s.Aligned account) (hb : s.Balanced server account specs log)
    (hf : fire (netConfig server account specs) a s = some s') (ha : s.Aside account s') : s'.Aligned account := by
  have hstamp : s'.terminal.stamp = s.terminal.stamp := by
    funext symbol
    unfold stamp
    rw [ha.deals]
  refine ⟨⟨?_, ?_, ?_⟩, ?_, ?_⟩
  · rw [ha.positions, hstamp]
    exact h.named.shown
  · rw [ha.lastTicket, hstamp]
    exact h.named.bounded
  · rw [hstamp]
    exact h.named.apart
  · rw [hstamp]
    exact h.copies.beside hb.sound ha.mappings fun _ _ => ha.rows.openPayload_some
  · rw [ha.unsettled hb hf, hstamp, ha.deals]
    exact h.acks

/-- A market order that is run: the tickets that the live copies name stay. -/
structure Renews (t t' : NetBook) (y : String × Side) (res : Result) : Prop where
  named : t'.Named
  others : ∀ symbol, (t.positions.find y.1 = none → symbol ≠ y.1) → t'.stamp symbol = t.stamp symbol
  shown : ∀ π ∈ res.position, t'.stamp y.1 = some π
  deal : ∃ d, t'.deals = t.deals ++ [d] ∧ t'.stamp y.1 = some d.position

theorem renews_market {t : NetBook} (h : t.Named) {r : CommandRow} {y : String × Side} (hy : r.market = some y)
    (hd : (NetBook.exec specs r.payload t).2.deal.isSome = true)
    (hk : ∀ p ∈ t.positions.find y.1, p.side = y.2 ∨ (NetBook.exec specs r.payload t).2.volume.getD 0 ≤ p.volume) :
    Renews t (NetBook.exec specs r.payload t).1 y (NetBook.exec specs r.payload t).2 := by
  cases hp : r.payload with
  | openMarket symbol side volume levels comment =>
    have hmarket : r.market = some (symbol, side) := by simp [CommandRow.market, hp]
    cases hmarket.symm.trans hy
    have hexec : exec specs r.payload t = t.doOpen specs symbol side volume levels := by rw [hp]; rfl
    rw [← hp, hexec]
    rw [hexec] at hd hk
    rcases doOpen_cases t specs symbol side volume levels with href | ⟨spec, v, -, hpos, -, hfill⟩
    · rw [href] at hd
      cases hd
    rw [hfill] at hk ⊢
    dsimp only [getD_some] at hk ⊢
    have hlast : (t.fill symbol side v (t.lastTicket + 1) levels).stamp symbol =
        some (t.dealFor symbol side v (t.lastTicket + 1)).position := by rw [stamp_fill, if_pos rfl]
    have hboth : (t.fill symbol side v (t.lastTicket + 1) levels).Named ∧
        ∀ symbol', (t.positions.find symbol = none → symbol' ≠ symbol) →
          (t.fill symbol side v (t.lastTicket + 1) levels).stamp symbol' = t.stamp symbol' := by
      cases hfind : t.positions.find symbol with
      | none =>
        obtain ⟨hnamed, hsame⟩ := h.fill_new side v levels hfind
        exact ⟨hnamed, fun symbol' hs => hsame symbol' (hs rfl)⟩
      | some p =>
        obtain ⟨hnamed, hsame⟩ := h.fill_on (t.lastTicket + 1) levels hfind (hk p hfind)
        exact ⟨hnamed, fun symbol' _ => hsame symbol'⟩
    refine ⟨hboth.1, hboth.2, fun π hπ => ?_, ⟨_, rfl, hlast⟩⟩
    obtain ⟨p, hp, rfl⟩ := map_eq_some_iff.1 hπ
    refine (hboth.1.shown symbol p ?_).2
    rw [find_fill, if_pos rfl]
    exact hp
  | _ =>
    rw [CommandRow.market, hp] at hy
    cases hy

theorem Aligned.execute (h : s.Aligned account) (hb : s.Balanced server account specs log)
    (ha : CopyTrades server account specs .execute s) (hk : KeepsTicket account specs .execute s)
    (hf : fire (netConfig server account specs) .execute s = some s') : s'.Aligned account := by
  obtain ⟨line, r, k, hran⟩ := hb.ran ha hf
  have hhead : line ∈ s.expert.inbox.head? := by rw [hran.head]; rfl
  rcases hb.only.copies r hran.row hran.mine with hkind | ⟨hkind, -⟩
  · -- an amend trades nothing
    have hterm : s'.terminal.Named ∧ ∀ symbol, s'.terminal.stamp symbol = s.terminal.stamp symbol := by
      rw [hran.terminal]
      cases hp : r.payload with
      | amend ticket levels => exact h.named.doAmend ticket levels
      | _ =>
        rw [hp] at hkind
        cases hkind
    have hdeals : s'.terminal.deals = s.terminal.deals := by
      obtain ⟨new, hdeals, hnew⟩ := hran.runs.deals
      rw [hran.runs.amend hkind] at hnew
      rw [hdeals, map_eq_nil_iff.1 hnew, append_nil]
    have hstamp : s'.terminal.stamp = s.terminal.stamp := funext hterm.2
    refine ⟨hterm.1, by rw [hran.server, hstamp]; exact h.copies, ?_⟩
    rw [hran.unsettled, hstamp, hdeals]
    intro x hx hclosing y hy
    rcases mem_append.1 hx with hx | hx
    · exact h.acks x hx hclosing y hy
    · obtain rfl := mem_singleton.1 hx
      rw [market_none (by rw [hkind]; exact nofun)] at hy
      cases hy
  · obtain ⟨y, hy⟩ := market_some hkind
    have hline : line.market = some y := by
      rw [← hy, CommandRow.market, CommandRow.market, hran.label.payload]
    have hd := (ha line hhead (hran.label.payload ▸ hkind)).1
    obtain ⟨hflip, hreopen⟩ := hk line hhead y hline
    rw [← hran.label.payload] at hd hflip
    have hrenews : Renews s.terminal s'.terminal y k.result := by
      rw [hran.terminal, hran.ack]
      exact renews_market h.named hy hd hflip
    obtain ⟨d, hdeals, hlast⟩ := hrenews.deal
    have hticket : k.result.deal = some d.ticket := by
      obtain ⟨new, hdeals', hnew⟩ := hran.runs.deals
      rw [hdeals, append_cancel_left_eq] at hdeals'
      rw [← hdeals', map_singleton] at hnew
      exact mem_toList.1 (hnew ▸ mem_singleton_self _)
    have hunique : ∀ d ∈ s'.terminal.deals, ∀ d' ∈ s'.terminal.deals, d.ticket = d'.ticket → d = d' :=
      fun d hd d' hd' => inj_on_of_nodup_map (hran.runs.ordered.sorted.imp ne_of_lt) hd hd'
    refine ⟨hrenews.named, ?_, ?_⟩
    · rw [hran.server]
      intro m hm hacc hact y' hy'
      rw [hrenews.others y'.1 fun hnone hs => (hreopen hnone).1 m hm hacc hact (by rw [hy', ← hs]; rfl)]
      exact h.copies m hm hacc hact y' hy'
    · rw [hran.unsettled]
      intro x hx hclosing y' hy'
      rcases mem_append.1 hx with hx | hx
      · obtain ⟨hpos, hdeal⟩ := h.acks x hx hclosing y' hy'
        rw [hrenews.others y'.1 fun hnone hs => (hreopen hnone).2 x hx (by rw [hy', ← hs]; rfl)]
        refine ⟨hpos, fun d' hd' ht => ?_⟩
        have hmarket : x.1.payload.kind = .openMarket := by
          by_contra hne
          rw [market_none hne] at hy'
          cases hy'
        obtain ⟨t, hmem, ht'⟩ := (hb.filled x hx hmarket).deal
        obtain ⟨d₀, hd₀, rfl⟩ := mem_map.1 hmem
        obtain rfl : d₀ = d' := hunique d₀ (hdeals ▸ mem_append_left _ hd₀) d' hd' (some.inj (ht'.symm.trans ht))
        exact hdeal d₀ hd₀ ht
      · obtain rfl := mem_singleton.1 hx
        cases hy.symm.trans hy'
        refine ⟨hrenews.shown, fun d' hd' ht => ?_⟩
        rw [hlast, hunique d (hdeals ▸ mem_append_right _ (mem_singleton_self d)) d' hd'
          (some.inj (hticket.symm.trans ht))]

theorem Aligned.poll (h : s.Aligned account) (hb : s.Balanced server account specs log) {gates : Org}
    {count : ℕ} {fate : Fate}
    (ha : CopyTrades server account specs (.poll gates count fate) s)
    (hf : fire (netConfig server account specs) (.poll gates count fate) s = some s') : s'.Aligned account := by
  obtain ⟨hinbox, hterm, -, -, hpoll⟩ := poll_cases hf
  have hs : s'.server = (s.server.sync server gates s.clock account
    (s.body (netConfig server account specs) count)).1 := by
    cases fate with
    | delivered | replyLost => exact hpoll.1
    | stale handled reply => exact ha.2.elim
  have hrep := hb.reported ha.1
  refine ⟨hterm ▸ h.named, ?_, ?_⟩
  · rw [hterm]
    refine NamesLast.beside (Server.namesLast_booked hrep h.copies fun j hj hx y hy => ?_) hrep.sound_booked
      (hb.beside_delivered hinbox hs) fun c x hx => ?_
    · obtain ⟨x, hmem, hclosing, hmarket, hpos⟩ := hrep.job_position hj hx
      obtain ⟨hshown, hdeal⟩ := h.acks x hmem hclosing y (hmarket y hy)
      rcases hpos with hpos | ⟨d, hd, ht, hdpos⟩
      · exact hshown _ hpos
      · rw [← hdpos]
        exact hdeal d (mem_newDeals hd) ht
    · rw [hs, Server.openPayload_sync hb.counted.numbered]
      exact hx
  · rw [(hb.poll ha hf).2]
    exact forall_mem_nil _

theorem Aligned.step (h : s.Aligned account) (hb : s.Balanced server account specs log)
    (ha : CopyTrades server account specs a s) (hk : KeepsTicket account specs a s)
    (hf : fire (netConfig server account specs) a s = some s') : s'.Aligned account := by
  obtain rfl | ⟨gates, count, fate, rfl⟩ | ⟨haside, -⟩ := hb.cases ha hf
  · exact h.execute hb ha hk hf
  · exact h.poll hb ha hf
  · exact h.beside hb hf haside

/-! ### What follows from fresh tickets -/

/-- With no command of a copy in flight, the copies add up. -/
theorem Balanced.copied_eq (hb : s.Balanced server account specs log)
    (hq : ∀ r ∈ s.server.rows, r.inFlight account = false) (symbol : String) :
    copied account s.server symbol = s.terminal.net symbol := by
  have hzero : ((s.unsettled account).map (traded symbol)).sum = 0 := by
    refine sum_eq_zero fun v hv => ?_
    obtain ⟨x, hx, rfl⟩ := mem_map.1 hv
    obtain ⟨hr, ho, hacc, -⟩ := mem_unsettledOf hx
    rcases hb.only.copies x.1 hr hacc with hkind | ⟨-, hc⟩
    · have hmarket : x.1.market = none := market_none (by rw [hkind]; exact nofun)
      simp [traded, hmarket]
    · exact absurd (hq x.1 hr) (by simp [inFlight_iff.2 ⟨hacc, ho, hc⟩])
  rw [hb.net symbol, hzero, add_zero]

open Reconcile

section

variable (h : s.Aligned account)
include h

/-- The copies that `compute_drift` finds on a ticket are those of its symbol. -/
theorem Aligned.expected (hb : s.Balanced server account specs log)
    (hv : Views b account s.server s.terminal) (ht : ticket ≠ 0)
    (hstamp : s.terminal.stamp symbol = some ticket) :
      b.expected account ticket = copied account s.server symbol := by
  rw [hv.expected, copied, Table.sum, sum_map_filter]
  refine congrArg sum (map_congr_left fun m hm => ?_)
  by_cases hlive : m.slaveAccountId = account ∧ m.status = .active
  · obtain ⟨y, hy⟩ := isSome_iff_exists.1 (hb.sound.sided m hm hlive.1 hlive.2)
    have hpos := h.copies m hm hlive.1 hlive.2 y hy
    have hsigned : signedCopy s.server.rows m = signed y.2 m.volume := by
      rw [signedCopy, hy]
      rcases y with ⟨-, side⟩
      cases side <;> rfl
    rw [share, if_pos hlive, hy, hsigned]
    simp only [isOn_eq, hlive.1, hlive.2, hpos, truthy, map_some, getD_some]
    by_cases hs : y.1 = symbol
    · simp [hs, hstamp, ht]
    · have hne : s.terminal.stamp y.1 ≠ some ticket := fun hc => hs (h.named.apart y.1 symbol ticket hc hstamp)
      simp [hs, filter_eq_some_iff, hne]
  · have hoff : isOn account ticket m = false := by
      simp only [isOn_eq, Bool.and_eq_false_iff, decide_eq_false_iff_not]
      exact .inl ((not_and_or.1 hlive).symm)
    rw [share, if_neg hlive, hoff]
    rfl

theorem Aligned.actual (hv : Views b account s.server s.terminal)
    (hstamp : s.terminal.stamp symbol = some ticket) :
    b.actual account ticket = s.terminal.net symbol := by
  unfold net
  cases hp : s.terminal.positions.find symbol with
  | some p =>
    have hticket := (h.named.shown symbol p hp).2
    rw [hstamp] at hticket
    rw [some.inj hticket, hv.actual (Table.find_eq_some hp).1]
    show _ = signed p.side p.volume
    cases p.side <;> rfl
  | none =>
    refine hv.actual_none fun p hmem ht => ?_
    have hfind : s.terminal.positions.find p.symbol = some p := Table.find_of_mem hmem
    have hs := h.named.apart p.symbol symbol ticket (ht ▸ (h.named.shown p.symbol p hfind).2) hstamp
    rw [hs, hp] at hfind
    cases hfind

theorem Aligned.stamp_of_compared (hb : s.Balanced server account specs log)
    (hv : Views b account s.server s.terminal) (hc : b.compared account ticket = true) :
    ticket ≠ 0 ∧ ∃ symbol, s.terminal.stamp symbol = some ticket := by
  unfold Books.compared at hc
  simp only [Bool.and_eq_true, Bool.not_eq_true', isEmpty_eq_false_iff] at hc
  obtain ⟨row, hrow⟩ := exists_mem_of_ne_nil _ hc.1.2
  obtain ⟨hmem, hon⟩ := mem_filter.1 hrow
  simp only [MappingRow.isOn, Bool.and_eq_true, decide_eq_true_eq] at hon
  obtain ⟨⟨hact, hacc⟩, hpos⟩ := hon
  obtain ⟨created, hperm⟩ := hv.mappings
  obtain ⟨m, hm, rfl⟩ := mem_map.1 (hperm.mem_iff.1 (mem_filter.2 ⟨hmem, decide_eq_true hacc⟩))
  obtain ⟨hpos, hne⟩ := filter_eq_some_iff.1 hpos
  have hrow := (mem_filter.1 hm).1
  obtain ⟨y, hy⟩ := isSome_iff_exists.1 (hb.sound.sided m hrow hacc hact)
  exact ⟨by simpa using hne, y.1, (h.copies m hrow hacc hact y hy).symm.trans hpos⟩

/-- **No item for a net position whose copies add up.** -/
theorem Aligned.no_net_item (hb : s.Balanced server account specs log)
    (hsum : ∀ symbol, copied account s.server symbol = s.terminal.net symbol)
    (hv : Views b account s.server s.terminal) (digest : String → String) :
    ∀ item ∈ check6 digest b, item.accountId ≠ some account := by
  intro item hitem hacc
  obtain ⟨⟨a, ticket⟩, hkey, hnet⟩ := mem_filterMap.1 hitem
  unfold netItem at hnet
  split_ifs at hnet with hdiff
  cases hnet
  obtain rfl : a = account := some.inj hacc
  rw [Books.comparedKeys, mem_insertionSort, mem_dedup] at hkey
  obtain ⟨m, -, hm⟩ := mem_filterMap.1 hkey
  obtain ⟨p, -, hp⟩ := bind_eq_some_iff.1 hm
  split_ifs at hp with hc
  cases some.inj hp
  obtain ⟨hne, symbol, hstamp⟩ := h.stamp_of_compared hb hv hc
  refine hdiff.2 ?_
  dsimp only
  rw [h.actual hv hstamp, h.expected hb hv hne hstamp, hsum symbol]

end

/-- **The tickets of a netting follower's copies are fresh.**  In every run in which no fill flips the net
position, and none opens it again while a copy of the symbol is live: with no command of a copy in flight, every
active copy of a symbol that is not flat names the ticket that the terminal shows, so that an amend finds the
position and a close at the terminal finds the copy; and `compute_drift` has no item for a net position. -/
theorem tickets_fresh {market : Market}
    (h : Machine.Run (fire (netConfig server account specs))
      (fun a s => CopyTrades server account specs a s ∧ KeepsTicket account specs a s) (init (.flat market)) s)
    (hq : ∀ r ∈ s.server.rows, r.inFlight account = false) :
    (∀ m ∈ s.server.service.mappings.rows, m.slaveAccountId = account → m.status = .active →
      ∃ y, openPayload s.server.rows m.clientOrderId = some y ∧ (s.terminal.net y.1 ≠ 0 →
        ∃ p, s.terminal.positions.find y.1 = some p ∧ m.slavePositionId = some p.ticket ∧
          (∀ levels, (s.terminal.doAmend p.ticket levels).2.ok = true) ∧
          ∀ v t', s.terminal.move (.close p.ticket v) = some t' →
            ∃ d, t'.deals = s.terminal.deals ++ [d] ∧ Server.shared account d.position m = m.volume)) ∧
      ∀ digest b, Views b account s.server s.terminal → ∀ item ∈ check6 digest b,
        item.accountId ≠ some account := by
  obtain ⟨⟨log, hb⟩, haligned⟩ : (∃ log, s.Balanced server account specs log) ∧ s.Aligned account := by
    refine h.invariant (P := fun s => (∃ log, s.Balanced server account specs log) ∧ s.Aligned account)
      ⟨⟨[], balanced_init market⟩, aligned_init market⟩ ?_
    rintro a s s' ⟨ha, hk⟩ ⟨⟨log, hb⟩, haligned⟩ hf
    exact ⟨⟨_, hb.step ha hf⟩, haligned.step hb ha hk hf⟩
  refine ⟨fun m hm hacc hact => ?_, fun digest b hv => haligned.no_net_item hb (hb.copied_eq hq) hv digest⟩
  obtain ⟨y, hy⟩ := isSome_iff_exists.1 (hb.sound.sided m hm hacc hact)
  refine ⟨y, hy, fun hnet => ?_⟩
  cases hp : s.terminal.positions.find y.1 with
  | none => exact absurd (by simp [net, hp]) hnet
  | some p =>
    have hticket : m.slavePositionId = some p.ticket :=
      (haligned.copies m hm hacc hact y hy).trans (haligned.named.shown y.1 p hp).2
    refine ⟨p, rfl, hticket, fun levels => ?_, fun v t' ht' => ?_⟩
    · rw [NetBook.doAmend, haligned.named.byTicket hp]
    · obtain ⟨d, hdeals, hd⟩ := haligned.named.deal_of_close hp ht'
      exact ⟨d, hdeals, by rw [Server.shared, if_pos ⟨hacc, hd ▸ hticket, hact⟩]⟩

/-- A copy of 100 is bought, one of 40 sold beside it, and 30 of the first are closed. -/
theorem tickets_fresh_both_sides :
    ∃ s : Exchange NetBook, Machine.Run (fire (netConfig nettingAccounts 2 anyLots))
        (fun a s => CopyTrades nettingAccounts 2 anyLots a s ∧ KeepsTicket 2 anyLots a s) (init sampleBook) s ∧
      s.terminal.net "EURUSD" = 30 ∧
      ∃ m ∈ s.server.service.mappings.rows, m.clientOrderId = .cm 6 2 ∧
        ∃ p, s.terminal.positions.find "EURUSD" = some p ∧
        m.slavePositionId = some p.ticket := by
  obtain ⟨s, hr, hq, hnet, hrow⟩ : ∃ s : Exchange NetBook, Machine.Run (fire (netConfig nettingAccounts 2 anyLots))
        (fun a s => CopyTrades nettingAccounts 2 anyLots a s ∧ KeepsTicket 2 anyLots a s) (init sampleBook) s ∧
      (∀ r ∈ s.server.rows, r.inFlight 2 = false) ∧ s.terminal.net "EURUSD" = 30 ∧
      ∃ m ∈ s.server.service.mappings.rows, m.clientOrderId = .cm 6 2 ∧ m.slaveAccountId = 2 ∧ m.status = .active ∧
        openPayload s.server.rows m.clientOrderId = some ("EURUSD", .sell) :=
    Machine.exists_run [.dispatch .live [sampleOpen 5 100 .buy], .tick 1, .poll .live 9 .delivered, .execute,
        .dispatch .live [sampleOpen 6 40 .sell], .poll .live 9 .delivered, .execute, .poll .live 9 .delivered,
        .dispatch .live [sampleClose 5 30], .tick 2, .poll .live 9 .delivered, .execute, .poll .live 9 .delivered]
      (init sampleBook) (by decide +kernel)
  obtain ⟨m, hm, hc, hacc, hact, hopen⟩ := hrow
  obtain ⟨y, hy, haligned⟩ := (tickets_fresh hr hq).1 m hm hacc hact
  cases hopen.symm.trans hy
  obtain ⟨p, hp, hticket, -⟩ := haligned (by rw [hnet]; decide)
  exact ⟨s, hr, hnet, m, hm, hc, p, hp, hticket⟩

/-- A copy of 100 is bought, and one of 300 sold, which flips the net position: the first copy, which is still
active, names the ticket of the position that is gone, and an amend of it is refused. -/
theorem ticket_lost_in_flip :
    ∃ s : Exchange NetBook, Machine.Run (fire (netConfig nettingAccounts 2 anyLots))
      (CopyTrades nettingAccounts 2 anyLots)
        (init sampleBook) s ∧
      (∀ r ∈ s.server.rows, r.inFlight 2 = false) ∧ s.terminal.net "EURUSD" = -200 ∧
      (s.terminal.positions.find "EURUSD").map NetPosition.ticket = some 2 ∧
      ∃ m ∈ s.server.service.mappings.rows, m.clientOrderId = .cm 5 2 ∧ m.slaveAccountId = 2 ∧ m.status = .active ∧
        m.volume = 100 ∧ openPayload s.server.rows m.clientOrderId = some ("EURUSD", .buy) ∧
          m.slavePositionId = some 1 ∧
        (s.terminal.doAmend 1 .unset).2.ok = false :=
  Machine.exists_run [.dispatch .live [sampleOpen 5 100 .buy], .tick 1, .poll .live 9 .delivered, .execute,
    .poll .live 9 .delivered,
      .dispatch .live [sampleOpen 6 300 .sell], .tick 2, .poll .live 9 .delivered, .execute,
        .poll .live 9 .delivered]
    (init sampleBook) (by decide +kernel)

end Exchange

end Copier.Mt5
