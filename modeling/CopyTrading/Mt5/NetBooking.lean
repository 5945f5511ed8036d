import CopyTrading.Mt5.Booked
import CopyTrading.Mt5.NetTerminal

/-!
# Mt5.NetBooking — which copy a netting terminal's deal is booked on

A close that is queued as an open on the other side is booked on the copy that its client order id names.  A close
by ticket is only a receipt: its deal comes back as one of the terminal's own, and the copies that share the net
position are reduced, oldest first.  The fill of a pending order is booked where no copy has the position yet.
-/

namespace Copier.Mt5

open List Option CommandRow NetBook

/-! ### The deals of a netting terminal -/

namespace NetBook

variable {t : NetBook} {p : NetPosition} {ticket : ℕ}

theorem find_of_byTicket (h : t.byTicket ticket = some p) : p.ticket = ticket ∧
    t.positions.find p.symbol = some p := by
  refine ⟨by simpa using find?_some h, ?_⟩
  exact Table.find_of_mem (mem_of_find?_eq_some h)

/-- What a close by ticket does. -/
theorem doClose_cases (t : NetBook) (specs : String → Option SymbolSpec) (ticket want : ℕ) :
    (∃ res, t.doClose specs ticket want = (t, res)) ∨
      ∃ p v lots, t.byTicket ticket = some p ∧ 0 < v ∧ v ≤ p.volume ∧
        t.doClose specs ticket want = (t.fill p.symbol (Side.opposite p.side) v (t.lastTicket + 1) .unset,
          ⟨true, some ticket, some (t.lastTicket + 1), some (t.lastTicket + 1), some lots⟩) := by
  unfold doClose
  cases hp : t.byTicket ticket with
  | none => exact .inl ⟨_, rfl⟩
  | some p =>
    simp only
    generalize (if (Decidable.decide (want = 0) || Decidable.decide (2 * p.volume ≤ 2 * want +
      ((specs p.symbol).getD ⟨0, 0, 0⟩).step)) = true then p.volume else
        normalizeLots ((specs p.symbol).getD ⟨0, 0, 0⟩) want) = lots
    by_cases hlots : lots = 0
    · rw [if_pos hlots]
      exact .inl ⟨_, rfl⟩
    · rw [if_neg hlots]
      cases htrade : t.trade p.symbol (Side.opposite p.side) (min lots p.volume) .unset with
      | none => exact .inl ⟨_, rfl⟩
      | some t' =>
        obtain ⟨hpos, rfl⟩ := net_trade htrade
        have hle : t.market.fills (min lots p.volume) ≤ p.volume :=
          (t.market.fills_le _).trans (Nat.min_le_right _ _)
        exact .inr ⟨p, _, lots, rfl, hpos, hle, rfl⟩

theorem dealFor_side (symbol : String) (side : Side) (volume order : ℕ) :
    (t.dealFor symbol side volume order).dealType.side = some side := by
  cases side <;> rfl

/-- The deal of a close names the position's identifier. -/
theorem dealFor_close (h : t.positions.find p.symbol = some p) {v : ℕ} (hv : v ≤ p.volume) (order : ℕ) :
    (t.dealFor p.symbol (Side.opposite p.side) v order).position = p.identifier ∧
      (t.dealFor p.symbol (Side.opposite p.side) v order).entry = .entryOut := by
  have hside : p.side ≠ Side.opposite p.side := by
    cases p.side <;> exact nofun
  unfold dealFor
  rw [h]
  refine ⟨rfl, ?_⟩
  show p.entry (Side.opposite p.side) v = .entryOut
  unfold NetPosition.entry
  rw [if_neg hside, if_pos hv]

end NetBook

/-! ### The side of a copy -/

/-- The side of a copy is read off its commands' labels. -/
theorem openPayload_map {f : CommandRow → CommandRow} {rows : List CommandRow} (h : ∀ r ∈ rows, SameLabel r (f r))
    (c : ClientOrderId) : openPayload (rows.map f) c = openPayload rows c := by
  unfold openPayload
  induction rows with
  | nil => rfl
  | cons r rows ih =>
    have hr := h r mem_cons_self
    rw [map_cons, findSome?_cons, findSome?_cons, hr.payload, hr.clientOrderId, hr.closing,
      ih fun r' hr' => h r' (mem_cons_of_mem r hr')]

/-- A command that opens no copy does not change it. -/
theorem openPayload_append (rows : List CommandRow) {r : CommandRow}
    (h : r.closing = true ∨ r.payload.kind ≠ .openMarket) (c : ClientOrderId) :
    openPayload (rows ++ [r]) c = openPayload rows c := by
  have hnone : openPayload [r] c = none := by
    unfold openPayload
    rw [findSome?_cons, findSome?_nil]
    cases hp : r.payload with
    | openMarket =>
      rcases h with h | h
      · simp [h]
      · rw [hp] at h
        cases h rfl
    | _ => rfl
  unfold openPayload at hnone ⊢
  rw [findSome?_append, hnone, or_none]

/-- A row that a poll has handed over. -/
def CommandRow.handedOver (now : ℚ) (r : CommandRow) : CommandRow :=
  { r with status := .sent, sentAt := some now, attempts := r.attempts + 1 }

/-! ### One acknowledgement, one deal -/

namespace Server

variable {cfg : ServerConfig} {gates : Org} {now : ℚ} {account : ℕ} {report : FollowerReport} {s : Server}
  {d : ReportDeal} {r : CommandRow} {res : Result} {t : NetBook}

/-- What a report says of one command. -/
theorem applyAcks_single {rows : List CommandRow} (res : Result) (hn : Numbered (rows ++ [r]))
    (ho : r.isOpen = true) (ha : r.accountId = account) : applyAcks account (rows ++ [r]) [⟨r.id, res⟩] =
      ((rows ++ [r]).map (CommandRow.complete account r.id res.ok), [r.outcome ⟨r.id, res⟩]) := by
  have hawaits : r.awaits account r.id = true := by simp [awaits, ho, ha]
  have hr : r ∈ rows ++ [r] := mem_append_right _ (mem_singleton_self r)
  have hsome : ((rows ++ [r]).find? (awaits account r.id)).isSome = true := find?_isSome.2 ⟨r, hr, hawaits⟩
  obtain ⟨r', hr'⟩ := isSome_iff_exists.1 hsome
  have hid := find?_some hr'
  simp only [awaits, Bool.and_eq_true, decide_eq_true_eq] at hid
  obtain rfl : r' = r := hn.unique (mem_of_find?_eq_some hr') hr hid.1.1
  simp only [applyAcks, hr']

/-- A report with one new deal. -/
theorem ingest_single (cfg : ServerConfig) (gates : Org) (now : ℚ) (outcomes : List AckOutcome)
    (hw : s.watermark account < d.ticket) (hd : report.deals = [d]) :
    ∃ w, s.ingest cfg gates now account report outcomes =
      ({ s with
          watermark := w
          settled := Function.update s.settled account
            (s.settled account ++ (settledBy outcomes).filter (· ∉ s.settled account)) } :
              Server).bookDeal cfg gates now
        account report (knownPositions account s.service.mappings) (ackedPositions outcomes) d := by
  have hfresh : s.freshDeals account report = [d] := by
    unfold freshDeals
    rw [hd, filter_cons_of_pos (by simpa using hw)]
    rfl
  refine ⟨Function.update s.watermark account (max (s.watermark account) d.ticket), ?_⟩
  simp only [ingest, hfresh, slaveDeals]
  rw [if_neg fun h => absurd h.1 (cons_ne_nil d [])]
  rfl

/-- A deal that an acknowledgement has settled is not booked again. -/
theorem bookDeal_settled (known acked : List ℕ) (h : d.ticket ∈ s.settled account) :
    (s.bookDeal cfg gates now account report known acked d).service = s.service := by
  unfold bookDeal
  by_cases hside : d.dealType.side = none
  · rw [if_pos hside]
  · rw [if_neg hside, if_pos h]

/-- A closing deal of a netting follower reduces the copies that share its position. -/
theorem bookDeal_closing (known acked : List ℕ) (hnet : cfg.netting account = true)
    (hside : d.dealType.side ≠ none)
    (h : d.ticket ∉ s.settled account) (he : d.entry.isClose = true) :
    s.bookDeal cfg gates now account report known acked d =
      s.setMappings (reduceFifo account d.position d.volume s.service.mappings) := by
  have hin : d.entry ≠ .entryIn := by
    intro hin
    rw [hin] at he
    cases he
  unfold bookDeal
  rw [if_neg hside, if_neg h, if_neg hin, if_pos he, if_pos hnet]

/-- What the server knows of the terminal: none of its later deals, and every command by its number. -/
structure Level (s : Server) (account : ℕ) (t : NetBook) : Prop where
  numbered : Numbered s.rows
  watermark : s.watermark account ≤ t.lastTicket
  settled : ∀ ticket ∈ s.settled account, ticket ≤ t.lastTicket

theorem Level.fresh (h : Level s account t) (hd : d.ticket = t.lastTicket + 1) :
    s.watermark account < d.ticket ∧ d.ticket ∉ s.settled account := by
  refine ⟨hd ▸ Nat.lt_succ_of_le h.watermark, fun hmem => ?_⟩
  have := h.settled d.ticket hmem
  omega

theorem Level.handed (h : Level s account t) (hid : r.id = s.rows.length) : Numbered (s.rows ++ [r]) := by
  intro k r' hk
  rcases Nat.lt_or_ge k s.rows.length with hlt | hge
  · rw [getElem?_append_left hlt] at hk
    exact h.numbered k r' hk
  · rw [getElem?_append_right hge, getElem?_singleton] at hk
    split_ifs at hk with hk0
    cases hk
    omega

section Row

variable (cfg gates now) (positions : List ReportPosition) (hlevel : Level s account t)
  (hid : r.id = s.rows.length)
  (ho : r.isOpen = true) (ha : r.accountId = account) (hok : res.ok = true) (hd : d.ticket = t.lastTicket + 1)
include hlevel hid ho ha hok hd

/-- A close by ticket is a receipt; its deal reduces the copies that share the position. -/
theorem booked_receipt (hkind : r.payload.kind = .closePosition) (hc : r.clientOrderId = none)
    (hnet : cfg.netting account = true) (hside : d.dealType.side ≠ none) (he : d.entry.isClose = true) :
    (({ s with rows := s.rows ++ [r] } : Server).booked cfg gates now account
        ⟨positions, [⟨r.id, res⟩], [d]⟩).service.mappings =
          reduceFifo account d.position d.volume s.service.mappings ∧
      (({ s with rows := s.rows ++ [r] } : Server).booked cfg gates now account
        ⟨positions, [⟨r.id, res⟩], [d]⟩).rows = (s.rows ++ [r]).map (CommandRow.complete account r.id true) := by
  have hacks := applyAcks_single res (hlevel.handed hid) ho ha
  have hkind' : (r.outcome ⟨r.id, res⟩).kind = .closePosition := by simp [outcome, hkind]
  have hc' : (r.outcome ⟨r.id, res⟩).clientOrderId = none := hc
  have hsettle : ({ s with rows := s.rows ++ [r] } : Server).settle cfg gates now account
      ⟨positions, [⟨r.id, res⟩], [d]⟩ = { s with rows := (s.rows ++ [r]).map (complete account r.id true) } := by
    simp only [settle, hacks, foldl_cons, foldl_nil, hok]
    unfold applyOutcome
    rw [hkind', hc']
    simp [outcome, hok]
  have hby : settledBy [r.outcome ⟨r.id, res⟩] = [] := by simp [settledBy, hc']
  unfold booked
  rw [hsettle, hacks]
  obtain ⟨w, hw⟩ := ingest_single
    (s := { s with rows := (s.rows ++ [r]).map (complete account r.id true) }) cfg gates now
    [r.outcome ⟨r.id, res⟩] (hlevel.fresh hd).1 (rfl : FollowerReport.deals ⟨positions, [⟨r.id, res⟩], [d]⟩ = [d])
  rw [hw, bookDeal_closing _ _ hnet hside (by simpa [hby] using (hlevel.fresh hd).2) he]
  exact ⟨rfl, rfl⟩

/-- A close with a client order id is booked on the copy it names. -/
theorem booked_named {c : ClientOrderId} {v : ℕ} (hkind : r.payload.kind = .openMarket)
    (hclosing : r.closing = true)
    (hc : r.clientOrderId = some c) (hcm : c.isMarketCopy = true) (hv : res.volume = some v)
    (hdeal : res.deal = some d.ticket) :
    ∃ π, (({ s with rows := s.rows ++ [r] } : Server).booked cfg gates now account
      ⟨positions, [⟨r.id, res⟩], [d]⟩).service.mappings =
        reducePositionMapping account π v (some c) s.service.mappings := by
  have hacks := applyAcks_single res (hlevel.handed hid) ho ha
  have hkind' : (r.outcome ⟨r.id, res⟩).kind = .closePosition := by simp [outcome, hkind, hclosing, hc]
  have hok' : (r.outcome ⟨r.id, res⟩).ok = true := hok
  have hc' : (r.outcome ⟨r.id, res⟩).clientOrderId = some c := hc
  have hv' : (r.outcome ⟨r.id, res⟩).volume = some v := by simp [outcome, hv]
  have hdeal' : (r.outcome ⟨r.id, res⟩).deal = some d.ticket := hdeal
  generalize r.outcome ⟨r.id, res⟩ = o at hacks hkind' hok' hc' hv' hdeal'
  generalize hreport : (⟨positions, [⟨r.id, res⟩], [d]⟩ : FollowerReport) = report
  have hticket : d.ticket ≠ 0 := by omega
  have hby : settledBy [o] = [d.ticket] := by
    simp [settledBy, hok', hc', hkind', hdeal', filter_some, hticket]
  generalize hπ : (o.position.filter (· ≠ 0)).getD (((dealOf report o).map ReportDeal.position).getD 0) = π
  have hpinned : SlaveFill.pinned ⟨some c, π, v, some v, none, .unset⟩ = some c := by simp [SlaveFill.pinned, hcm]
  have hfill : (s.service.handleSlaveFill gates account ⟨some c, π, v, some v, none, .unset⟩).1.mappings =
      reducePositionMapping account π v (some c) s.service.mappings := by
    rw [handleSlaveFill_close (k := v) rfl, hpinned]
  -- the acknowledgement is booked on the copy, its deal is settled
  generalize hs₁ : ({ s with rows := s.rows ++ [r] } : Server).settle cfg gates now account report = s₁
  have hsettle : s₁.service.mappings = reducePositionMapping account π v (some c) s.service.mappings ∧
      s₁.watermark = s.watermark := by
    subst hs₁ hreport
    simp only [settle, hacks, foldl_cons, foldl_nil]
    unfold applyOutcome
    simp only [hkind', hok', hc', hv', isSome_some, if_true, getD_some, Bool.true_eq_false, if_false, hπ]
    exact ⟨hfill, rfl⟩
  have hw : s₁.watermark account < d.ticket := by
    rw [hsettle.2]
    exact (hlevel.fresh hd).1
  obtain ⟨w, hw'⟩ := ingest_single cfg gates now [o] hw (hreport ▸ rfl : report.deals = [d])
  have hmem : d.ticket ∈ s₁.settled account ++ (settledBy [o]).filter (· ∉ s₁.settled account) := by
    rw [hby, mem_append, mem_filter]
    by_cases hmem : d.ticket ∈ s₁.settled account
    · exact .inl hmem
    · exact .inr ⟨mem_singleton_self _, by simpa using hmem⟩
  refine ⟨π, ?_⟩
  unfold booked
  have hacks' : (applyAcks account (s.rows ++ [r]) report.acks).2 = [o] := by rw [← hreport, hacks]
  rw [hs₁, hacks', hw', bookDeal_settled _ _ (by dsimp only; rwa [Function.update_self])]
  exact hsettle.1

end Row

/-! ### Oldest first -/

section Fifo

variable {ms : Mappings} {position volume : ℕ} {m : Mapping} {x : Mapping × ℕ}

/-- The copies that a closing deal takes from. -/
def takenFrom (account position volume : ℕ) (ms : Mappings) : List (Mapping × ℕ) :=
  (Fifo.consume (shared account position) (fun m k => some (m.reduce k)) ms.rows.reverse volume).2

theorem shared_pos {k : ℕ} (hk : 0 < k) (h : k ≤ shared account position m) :
    m.slaveAccountId = account ∧ m.slavePositionId = some position ∧ m.status = .active ∧ k ≤ m.volume := by
  unfold shared at h
  split_ifs at h with hc
  · exact ⟨hc.1, hc.2.1, hc.2.2, h⟩
  · omega

theorem volume_reduce (m : Mapping) (k : ℕ) : (m.reduce k).volume = m.volume - k := by
  cases hh : m.held <;> simp [Mapping.volume, Mapping.reduce, hh]

theorem mem_takenFrom (h : x ∈ takenFrom account position volume ms) :
    x.1 ∈ ms.rows ∧ 0 < x.2 ∧ x.2 ≤ shared account position x.1 := by
  obtain ⟨hm, hk, hle⟩ := Fifo.mem_taken h
  exact ⟨mem_reverse.1 hm, hk, hle⟩

theorem nodup_oldest (ms : Mappings) : (ms.rows.reverse.map Mapping.clientOrderId).Nodup := by
  rw [map_reverse]
  exact nodup_reverse.2 ms.nodup

theorem find_reduceFifo (c : ClientOrderId) : (reduceFifo account position volume ms).find c =
    ((takenFrom account position volume ms).find? fun x => x.1.clientOrderId = c).elim (ms.find c)
      fun x => some (x.1.reduce x.2) := by
  have hdrain : ∀ (m : Mapping) (k : ℕ) (y : Mapping), some (m.reduce k) = some y →
      y.clientOrderId = m.clientOrderId := by
    intro m k y hy
    rw [← some.inj hy]
    rfl
  calc (reduceFifo account position volume ms).find c
    _ = (consumeShared account position volume ms.rows.reverse).find? fun m => m.clientOrderId = c :=
        Table.find?_reverse (consumeShared_keys account position volume ms.rows.reverse ▸ nodup_oldest ms) c
    _ = _ := Fifo.find_left hdrain (nodup_oldest ms) c
    _ = _ := by
        rw [show ms.rows.reverse.find? (fun m => m.clientOrderId = c) = ms.find c from
          Table.find?_reverse ms.nodup c]
        rfl

theorem takenFrom_nodup (account position volume : ℕ) (ms : Mappings) :
    ((takenFrom account position volume ms).map fun x => x.1.clientOrderId).Nodup :=
  (nodup_oldest ms).sublist (Fifo.taken_sublist Mapping.clientOrderId _ _)

theorem find_taken (h : x ∈ takenFrom account position volume ms) :
    (reduceFifo account position volume ms).find x.1.clientOrderId = some (x.1.reduce x.2) := by
  have hsome : ((takenFrom account position volume ms).find? fun y =>
      y.1.clientOrderId = x.1.clientOrderId).isSome = true := find?_isSome.2 ⟨x, h, decide_eq_true rfl⟩
  obtain ⟨y, hy⟩ := isSome_iff_exists.1 hsome
  have hkey : y.1.clientOrderId = x.1.clientOrderId := by simpa using find?_some hy
  obtain rfl : y = x := inj_on_of_nodup_map (takenFrom_nodup account position volume ms)
    (mem_of_find?_eq_some hy) h hkey
  rw [find_reduceFifo, hy]
  rfl

theorem find_not_taken {c : ClientOrderId}
    (h : ∀ x ∈ takenFrom account position volume ms, x.1.clientOrderId ≠ c) :
    (reduceFifo account position volume ms).find c = ms.find c := by
  have hnone : (takenFrom account position volume ms).find? (fun x => x.1.clientOrderId = c) = none :=
    find?_eq_none.2 fun x hx hxc => h x hx (of_decide_eq_true hxc)
  rw [find_reduceFifo, hnone]
  rfl

/-- A copy that was taken from holds less. -/
theorem less_of_taken (h : x ∈ takenFrom account position volume ms) :
    (x.1.reduce x.2).volume < x.1.volume := by
  obtain ⟨-, hk, hle⟩ := mem_takenFrom h
  have hvol := (shared_pos hk hle).2.2.2
  rw [volume_reduce]
  omega

/-- The copy is the oldest of those that hold part of the position. -/
structure OldestOn (account position : ℕ) (ms : Mappings) (m : Mapping) : Prop where
  on : m.slavePositionId = some position
  oldest : ∀ m', [m', m].Sublist ms.rows.reverse → shared account position m' = 0

/-- **Which copy a closing deal reduces**: a given one alone, by all of the deal, if it is the oldest. -/
theorem reduceFifo_one_iff (hm : m ∈ ms.rows) (hacc : m.slaveAccountId = account) (hact : m.status = .active)
    (hpos : 0 < volume) (hle : volume ≤ m.volume) :
    (∀ c, (reduceFifo account position volume ms).find c =
        if c = m.clientOrderId then some (m.reduce volume) else ms.find c) ↔ OldestOn account position ms m := by
  have hfind : ∀ m' ∈ ms.rows, ms.find m'.clientOrderId = some m' := fun m' hm' => Table.find_of_mem hm'
  have huniq : ∀ m' ∈ ms.rows, m'.clientOrderId = m.clientOrderId → m' = m := fun m' hm' hc =>
    Table.eq_of_find (hfind m hm) hm' hc
  constructor
  · intro h
    -- the copy has been taken from, and no other
    have htaken : ∃ x ∈ takenFrom account position volume ms, x.1 = m := by
      by_contra hno
      have hself := h m.clientOrderId
      rw [if_pos rfl, find_not_taken, hfind m hm] at hself
      · have := congrArg Mapping.volume (some.inj hself)
        rw [volume_reduce] at this
        omega
      · exact fun x hx hc => hno ⟨x, hx, huniq x.1 (mem_takenFrom hx).1 hc⟩
    obtain ⟨x, hx, rfl⟩ := htaken
    have hon := shared_pos (mem_takenFrom hx).2.1 (mem_takenFrom hx).2.2
    refine ⟨hon.2.1, fun m' hsub => ?_⟩
    by_contra hne
    have hnd : ms.rows.reverse.Nodup := nodup_reverse.2 (Nodup.of_map _ ms.nodup)
    have hm'x : m' ≠ x.1 := by
      have := hnd.sublist hsub
      simpa using this
    have hm' : (m', shared account position m') ∈ takenFrom account position volume ms :=
      Fifo.taken_all_before hsub (Nat.pos_of_ne_zero hne) hnd hx
    have hold := h m'.clientOrderId
    rw [if_neg fun hc => hm'x (huniq m' (mem_takenFrom hm').1 hc), find_taken hm',
      hfind m' (mem_takenFrom hm').1] at hold
    have hless := less_of_taken hm'
    rw [some.inj hold] at hless
    exact lt_irrefl _ hless
  · rintro ⟨hon, hold⟩ c
    obtain ⟨l, l', hl⟩ := append_of_mem (mem_reverse.2 hm)
    have hbefore : ∀ m' ∈ l, shared account position m' = 0 := by
      intro m' hm'
      refine hold m' ?_
      rw [hl]
      exact (singleton_sublist.2 hm').append (singleton_sublist.2 mem_cons_self)
    have hshared : shared account position m = m.volume := by
      unfold shared
      rw [if_pos ⟨hacc, hon, hact⟩]
    have htaken : takenFrom account position volume ms = [(m, volume)] := by
      unfold takenFrom
      rw [hl, Fifo.consume_first hbefore hpos (hshared.symm ▸ hle)]
    by_cases hc : c = m.clientOrderId
    · rw [if_pos hc, hc]
      exact find_taken (x := (m, volume)) (by rw [htaken]; exact mem_singleton_self _)
    · rw [if_neg hc]
      refine find_not_taken fun x hx hxc => hc ?_
      rw [htaken] at hx
      rw [← hxc, mem_singleton.1 hx]

end Fifo

/-! ### A close, from the request to its deal -/

/-- The row of a close that a netting follower is sent. -/
def closeRow (cfg : ServerConfig) (now : ℚ) (rows : List CommandRow) (i : ClosePosition) : CommandRow :=
  (nettingClose rows rows.length cfg.org now i).getD
    (queuedRow rows.length i.slaveAccountId cfg.org now (.closePosition i.positionId i.volume) none false true)

/-- One request, by itself: it is queued, handed over and run, and its acknowledgement comes back with the
deals. -/
def carryOut (cfg : ServerConfig) (gates : Org) (now : ℚ) (account : ℕ) (specs : String → Option SymbolSpec)
    (i : SlaveIntent) (s : Server) (t : NetBook) : Server × NetBook :=
  let queued := s.dispatch cfg gates now [i]
  match queued.rows.drop s.rows.length with
  | [] => (queued, t)
  | r :: _ =>
    let x := NetBook.exec specs r.payload t
    ({ queued with rows := s.rows ++ [r.handedOver now] }.booked cfg gates now account
      ⟨x.1.reported, [⟨r.id, x.2⟩], x.1.deals.drop t.deals.length⟩, x.1)

section Close

variable {i : ClosePosition} {rows : List CommandRow}

/-- Without an open command that tells the side, the position is closed by its ticket. -/
theorem closeRow_plain
    (h : i.masterPositionId.bind (fun p => openPayload rows (.cm p i.slaveAccountId)) = none) :
    closeRow cfg now rows i = queuedRow rows.length i.slaveAccountId cfg.org now
      (.closePosition i.positionId i.volume) none false true := by
  have hnone : nettingClose rows rows.length cfg.org now i = none := by
    unfold nettingClose
    cases hp : i.masterPositionId with
    | none => rfl
    | some p =>
      rw [hp, bind_some] at h
      simp [h]
  unfold closeRow
  rw [hnone]
  rfl

theorem closeRow_named (cfg : ServerConfig) (now : ℚ) {p : ℕ} {symbol : String} {side : Side}
    (hp : i.masterPositionId = some p) (ho : openPayload rows (.cm p i.slaveAccountId) = some (symbol, side)) :
    ∃ comment, closeRow cfg now rows i = queuedRow rows.length i.slaveAccountId cfg.org now
      (.openMarket symbol (Side.opposite side) i.volume .unset comment) (some (.cm p i.slaveAccountId))
        true true := by
  unfold closeRow nettingClose
  simp only [hp, ho, bind_eq_bind, bind_some, getD_some]
  exact ⟨_, rfl⟩

variable {specs : String → Option SymbolSpec} {i : ClosePosition} {s' : Server} {t' : NetBook}

theorem ne_append_self (deals : List ReportDeal) : deals ≠ deals ++ [d] := by
  intro h
  have := congrArg length h
  simp at this

section Dealt

variable (hg : gates.copies = true) (ht : (cfg.targets i.slaveAccountId).isSome = true)
  (hnet : cfg.netting i.slaveAccountId = true)
include hg ht hnet

theorem dispatch_close :
    s.dispatch cfg gates now [.closePosition i] = { s with rows := s.rows ++ [closeRow cfg now s.rows i] } := by
  obtain ⟨symbols, hsymbols⟩ := isSome_iff_exists.1 ht
  have hsent : Copier.dispatch gates [.closePosition i] s.service.mappings = (s.service.mappings,
    [.closePosition i]) := by
    simp only [Org.copies, Bool.and_eq_true, Bool.not_eq_true'] at hg
    simp [Copier.dispatch, dispatchOne, createMapping, hg.1, hg.2]
  have hrow : enqueueOne cfg now s.rows (.closePosition i) = s.rows ++ [closeRow cfg now s.rows i] := by
    unfold enqueueOne closeRow
    simp only [SlaveIntent.slaveAccountId, hsymbols, bind_some, Dispatch.Desk.brokerSymbol, enqueueIntent,
      hnet, if_true, commandForIntent, map_some, clientOrderIdFor]
    cases nettingClose s.rows s.rows.length cfg.org now i <;> rfl
  have hmatched : cfg.unmatched (.closePosition i) = false := by
    simp [ServerConfig.unmatched, SlaveIntent.slaveAccountId, hsymbols, Dispatch.Desk.brokerSymbol]
  unfold dispatch
  rw [filter_singleton, hmatched, Bool.and_false, Bool.not_false, cond_true, hsent]
  simp only [send, foldl_cons, foldl_nil, hrow]

variable (hx : s.carryOut cfg gates now i.slaveAccountId specs (.closePosition i) t = (s', t'))
  (hd : t'.deals = t.deals ++ [d])
include hx hd

/-- A close that makes a deal. -/
theorem carryOut_close : ∃ res, NetBook.exec specs (closeRow cfg now s.rows i).payload t = (t', res) ∧
      s' = ({ s with rows := s.rows ++ [(closeRow cfg now s.rows i).handedOver now] } :
        Server).booked cfg gates now
        i.slaveAccountId ⟨t'.reported, [⟨(closeRow cfg now s.rows i).id, res⟩], [d]⟩ := by
  unfold carryOut at hx
  rw [dispatch_close hg ht hnet] at hx
  simp only [drop_left] at hx
  generalize exec specs (closeRow cfg now s.rows i).payload t = x at hx
  cases hx
  rw [hd, drop_left]
  exact ⟨x.2, rfl, rfl⟩

/-- **A close by ticket**: the terminal closes (part of) the net position, and the copies on its identifier are
reduced, oldest first. -/
theorem carryOut_by_ticket (hlevel : Level s i.slaveAccountId t)
    (hplain : i.masterPositionId.bind (fun p => openPayload s.rows (.cm p i.slaveAccountId)) = none) :
    ∃ p, t.byTicket i.positionId = some p ∧ 0 < d.volume ∧ d.volume ≤ p.volume ∧
      t' = t.fill p.symbol (Side.opposite p.side) d.volume (t.lastTicket + 1) .unset ∧
      s'.service.mappings = reduceFifo i.slaveAccountId p.identifier d.volume s.service.mappings ∧
      ∀ c, openPayload s'.rows c = openPayload s.rows c := by
  obtain ⟨res, hexec, rfl⟩ := carryOut_close hg ht hnet hx hd
  rw [closeRow_plain hplain] at hexec ⊢
  rcases t.doClose_cases specs i.positionId i.volume with ⟨res', he⟩ | ⟨p, v, lots, hp, hpos, hle, he⟩
  · cases he.symm.trans hexec
    exact absurd hd (ne_append_self _)
  · cases he.symm.trans hexec
    obtain ⟨-, hfind⟩ := find_of_byTicket hp
    obtain rfl : t.dealFor p.symbol (Side.opposite p.side) v (t.lastTicket + 1) = d := by
      simpa [fill] using hd
    obtain ⟨hposition, hentry⟩ := dealFor_close hfind hle (t.lastTicket + 1)
    obtain ⟨hms, hrows⟩ := booked_receipt cfg gates now
      (t.fill p.symbol (Side.opposite p.side) v (t.lastTicket + 1) .unset).reported hlevel
      (r := (queuedRow s.rows.length i.slaveAccountId cfg.org now (.closePosition i.positionId i.volume) none false
        true).handedOver now) rfl rfl rfl (rfl : Result.ok ⟨true, some i.positionId, some (t.lastTicket + 1),
        some (t.lastTicket + 1), some lots⟩ = true)
      (rfl : (t.dealFor p.symbol (Side.opposite p.side) v (t.lastTicket + 1)).ticket = _) rfl rfl hnet
      (by rw [dealFor_side]; exact some_ne_none _) (by rw [hentry]; rfl)
    refine ⟨p, hp, hpos, hle, rfl, ?_, fun c => ?_⟩
    · rw [← hposition]
      exact hms
    · rw [← openPayload_append s.rows (r := (queuedRow s.rows.length i.slaveAccountId cfg.org now
        (.closePosition i.positionId i.volume) none false true).handedOver now) (.inr nofun) c]
      exact (congrArg (openPayload · c) hrows).trans (openPayload_map
        (fun r _ => settles_same (settles_complete _ _ r)) c)

/-- **A close by client order id**: the copy it names is reduced by the volume of the deal. -/
theorem carryOut_by_id (hlevel : Level s i.slaveAccountId t) {p : ℕ} (hp : i.masterPositionId = some p)
    (hside : (openPayload s.rows (.cm p i.slaveAccountId)).isSome = true) :
    0 < d.volume ∧ ∃ π, s'.service.mappings = reducePositionMapping i.slaveAccountId π d.volume
      (some (.cm p i.slaveAccountId)) s.service.mappings := by
  obtain ⟨⟨symbol, side⟩, hside⟩ := isSome_iff_exists.1 hside
  obtain ⟨comment, hrow⟩ := closeRow_named cfg now hp hside
  obtain ⟨res, hexec, rfl⟩ := carryOut_close hg ht hnet hx hd
  rw [hrow] at hexec ⊢
  rcases t.doOpen_cases specs symbol (Side.opposite side) i.volume .unset with he | ⟨spec, v, -, hpos, -, he⟩
  · cases he.symm.trans hexec
    exact absurd hd (ne_append_self _)
  · cases he.symm.trans hexec
    obtain rfl : t.dealFor symbol (Side.opposite side) v (t.lastTicket + 1) = d := by
      simpa [fill] using hd
    refine ⟨hpos, ?_⟩
    exact booked_named cfg gates now _ hlevel rfl rfl rfl rfl rfl rfl rfl rfl rfl rfl rfl

end Dealt

/-- The copy of a master position on an account. -/
structure IsCopyOf (account masterPositionId : ℕ) (ms : Mappings) (m : Mapping) (h : Held) : Prop where
  mem : m ∈ ms.rows
  slaveAccountId : m.slaveAccountId = account
  masterPositionId : m.masterPositionId = some masterPositionId
  status : m.status = .active
  held : m.held = some h

/-- The close names the copy: by its client order id, or as the oldest copy of the net position. -/
def CloseNames (s : Server) (t : NetBook) (account masterPositionId : ℕ) (m : Mapping) (h : Held) : Prop :=
  match openPayload s.rows (.cm masterPositionId account) with
  | some _ => m.clientOrderId = .cm masterPositionId account
  | none => ∃ p, t.byTicket h.slavePositionId = some p ∧ OldestOn account p.identifier s.service.mappings m

theorem closeFor_eq {e : MasterPositionClosed} {slave : SlaveConfig} {entry : PositionMappingEntry}
    (h : closeFor e slave entry = .closePosition i) :
    i.slaveAccountId = slave.accountId ∧ i.positionId = entry.slavePositionId ∧
      i.masterPositionId = some e.positionId := by
  unfold closeFor at h
  simp only at h
  split_ifs at h
  cases h
  exact ⟨rfl, rfl, rfl⟩

/-- A reduction by client order id, for one copy. -/
theorem reducePosition_one_iff {ms : Mappings} {m : Mapping} {c₀ : ClientOrderId} {π k : ℕ} (hm : m ∈ ms.rows)
    (hacc : m.slaveAccountId = account) (hact : m.status = .active) (hpos : 0 < k) (hle : k ≤ m.volume) :
    (∀ c, (reducePositionMapping account π k (some c₀) ms).find c =
      if c = m.clientOrderId then some (m.reduce k) else ms.find c) ↔ m.clientOrderId = c₀ := by
  have hfind : ms.find m.clientOrderId = some m := Table.find_of_mem hm
  have hrow : ∀ c, (reducePositionMapping account π k (some c₀) ms).find c =
      (ms.find c).map fun m' => if m'.isReduced account π (some c₀) then m'.reduce k else m' :=
    fun c => find_updateWhere _
  constructor
  · intro h
    by_contra hne
    have hself := h m.clientOrderId
    rw [if_pos rfl, hrow, hfind] at hself
    have hout : m.isReduced account π (some c₀) = false := by simp [Mapping.isReduced, hne]
    simp only [map_some, hout, Bool.false_eq_true, if_false, some.injEq] at hself
    have hvol := congrArg Mapping.volume hself
    rw [volume_reduce] at hvol
    omega
  · rintro rfl c
    rw [hrow]
    by_cases hc : c = m.clientOrderId
    · have hin : m.isReduced account π (some m.clientOrderId) = true := by simp [Mapping.isReduced, hacc, hact]
      rw [if_pos hc, hc, hfind, map_some, if_pos hin]
    · rw [if_neg hc]
      cases hf : ms.find c with
      | none => rfl
      | some m' =>
        have hkey : m'.clientOrderId = c := (Table.find_eq_some hf).2
        have hout : m'.isReduced account π (some m.clientOrderId) = false := by
          simp [Mapping.isReduced, hkey, hc]
        rw [map_some, hout]
        rfl

/-- **Which copy a master's close reduces on a netting follower**: its own and no other, by the volume of the deal,
exactly if the close names it. -/
theorem netting_close_attributed {e : MasterPositionClosed} {slave : SlaveConfig} {m : Mapping} {h : Held}
    (hlevel : Level s account t) (hg : gates.copies = true) (ht : (cfg.targets account).isSome = true)
    (hnet : cfg.netting account = true) (hslave : slave.accountId = account)
    (hcopy : IsCopyOf account e.positionId s.service.mappings m h)
    (hclose : closeFor e slave ⟨account, h.slavePositionId, h.slaveVolume⟩ = .closePosition i)
    (hx : s.carryOut cfg gates now account specs (.closePosition i) t = (s', t'))
      (hd : t'.deals = t.deals ++ [d]) :
    (d.volume ≤ m.volume ∧ ∀ c, s'.service.mappings.find c =
        if c = m.clientOrderId then some (m.reduce d.volume) else s.service.mappings.find c) ↔
      d.volume ≤ m.volume ∧ CloseNames s t account e.positionId m h := by
  obtain ⟨hi, hπ, hp⟩ := closeFor_eq hclose
  obtain rfl := hi.trans hslave
  refine and_congr_right fun hle => ?_
  unfold CloseNames
  cases hside : openPayload s.rows (.cm e.positionId i.slaveAccountId) with
  | some x =>
    obtain ⟨hpos, π, hms⟩ := carryOut_by_id hg ht hnet hx hd hlevel hp (hside ▸ rfl)
    rw [hms]
    exact reducePosition_one_iff hcopy.mem hcopy.slaveAccountId hcopy.status hpos hle
  | none =>
    have hplain : i.masterPositionId.bind (fun p => openPayload s.rows (.cm p i.slaveAccountId)) = none := by
      rw [hp, bind_some, hside]
    obtain ⟨p, hticket, hpos, -, -, hms, -⟩ := carryOut_by_ticket hg ht hnet hx hd hlevel hplain
    rw [hms, reduceFifo_one_iff hcopy.mem hcopy.slaveAccountId hcopy.status hpos hle]
    rw [hπ] at hticket
    constructor
    · exact fun hold => ⟨p, hticket, hold⟩
    · rintro ⟨p', hp', hold⟩
      cases hticket.symm.trans hp'
      exact hold

/-- The copy of master position 5, opened at the market. -/
def marketCopy : Mapping := ⟨.cm 5 2, 2, some 5, none, none, some ⟨1, 3⟩, .active⟩

/-- The younger copy of master position 6, a filled pending order. -/
def pendingCopy : Mapping := ⟨.co 7 2, 2, some 6, some 7, some 2, some ⟨1, 2⟩, .active⟩

/-- Both share the net position 1 of account 2. -/
def sharedServer : Server where
  rows := [⟨0, 2, 1, .openMarket "EURUSD" .buy 3 .unset "copy:m5", some (.cm 5 2), false, true, .done,
    1, 0, some 0⟩]
  service := ⟨⟨[pendingCopy, marketCopy], by decide⟩, []⟩
  watermark := fun _ => 4
  settled := fun _ => []

def sharedBook : NetBook :=
  ⟨⟨[⟨"EURUSD", 1, 1, .buy, 5, .unset, by decide⟩], by decide⟩, [], [], 4, ⟨none, 1, 0⟩⟩

def sharedSlave : SlaveConfig := ⟨2, true, unitMultiplier, fun _ => none⟩

theorem sharedServer_level : Level sharedServer 2 sharedBook where
  numbered := by
    intro k r hk
    rcases k with _ | k
    · cases hk
      rfl
    · cases hk
  watermark := le_rfl
  settled := nofun

/-- The master closes position 5: the market copy is reduced, the other is left alone. -/
theorem netting_close_attributed_market : ∃ s' t', sharedServer.carryOut nettingAccounts .live 0 2 anyLots
      (.closePosition ⟨2, 1, 3, some 5⟩) sharedBook = (s', t') ∧
    ∀ c, s'.service.mappings.find c =
      if c = .cm 5 2 then some (marketCopy.reduce 3) else sharedServer.service.mappings.find c := by
  have hcopy : IsCopyOf 2 5 sharedServer.service.mappings marketCopy ⟨1, 3⟩ := ⟨by decide, rfl, rfl, rfl, rfl⟩
  have hclose : closeFor ⟨5, "EURUSD", 3, 0⟩ sharedSlave ⟨2, 1, 3⟩ = .closePosition ⟨2, 1, 3, some 5⟩ := by
    decide
  generalize hx : sharedServer.carryOut nettingAccounts .live 0 2 anyLots (.closePosition ⟨2, 1, 3, some 5⟩)
    sharedBook = x
  have hd : x.2.deals = sharedBook.deals ++ [⟨5, 1, 5, "EURUSD", .sell, .entryOut, 3, 1, 0⟩] := by
    rw [← hx]
    decide
  have hiff := netting_close_attributed (e := ⟨5, "EURUSD", 3, 0⟩) sharedServer_level
    (rfl : Org.live.copies = true)
    (rfl : (nettingAccounts.targets 2).isSome = true) (rfl : nettingAccounts.netting 2 = true)
    (rfl : sharedSlave.accountId = 2) hcopy hclose hx hd
  exact ⟨x.1, x.2, rfl, (hiff.2 ⟨by decide, rfl⟩).2⟩

/-- The master closes position 6: the deal of the close is taken from the copy of position 5. -/
theorem older_copy_reduced :
    closeFor ⟨6, "EURUSD", 2, 0⟩ sharedSlave ⟨2, 1, 2⟩ = .closePosition ⟨2, 1, 2, some 6⟩ ∧
      ∃ s' t', sharedServer.carryOut nettingAccounts .live 0 2 anyLots
        (.closePosition ⟨2, 1, 2, some 6⟩) sharedBook =
          (s', t') ∧ t'.deals.map ReportDeal.volume = [2] ∧
        s'.service.mappings.find (.co 7 2) = some pendingCopy ∧
        s'.service.mappings.find (.cm 5 2) = some (marketCopy.reduce 2) :=
  ⟨by decide, _, _, rfl, by decide, by decide, by decide⟩

end Close

/-! ### The fill of a pending order -/

section Pending

variable {t' : NetBook} {o : NetOrder} {m : Mapping} {ms : Mappings}

/-- The filled order adds to a position that no copy has. -/
def FillIsNew (s : Server) (t : NetBook) (account : ℕ) (o : NetOrder) : Prop :=
  match t.positions.find o.symbol with
  | none => o.ticket ∉ knownPositions account s.service.mappings
  | some p => p.side = sideOf o.orderType ∧ p.identifier ∉ knownPositions account s.service.mappings

/-- A deal that no acknowledgement explains. -/
theorem booked_own (cfg : ServerConfig) (gates : Org) (now : ℚ) (positions : List ReportPosition)
    (hlevel : Level s account t) (hd : d.ticket = t.lastTicket + 1) :
    ∃ w f, d.ticket ∉ f account ∧ s.booked cfg gates now account ⟨positions, [], [d]⟩ =
      ({ s with watermark := w, settled := f } : Server).bookDeal cfg gates now account ⟨positions, [], [d]⟩
        (knownPositions account s.service.mappings) [] d := by
  obtain ⟨w, hw⟩ := ingest_single cfg gates now [] (hlevel.fresh hd).1
    (rfl : FollowerReport.deals ⟨positions, [], [d]⟩ = [d])
  refine ⟨w, _, ?_, hw⟩
  rw [Function.update_self]
  simpa [settledBy] using (hlevel.fresh hd).2

/-- An opening deal that nothing explains is a pending order's fill, unless a copy has its position. -/
theorem bookDeal_opening (known : List ℕ) (hside : d.dealType.side ≠ none) (h : d.ticket ∉ s.settled account)
    (he : d.entry = .entryIn) (horder : d.order ≠ 0) :
    (s.bookDeal cfg gates now account report known [] d).service.mappings =
      if d.position ∈ known then s.service.mappings
      else (activatePendingFill account (some d.order) d.position d.volume s.service.mappings).getD
        s.service.mappings := by
  unfold bookDeal
  rw [if_neg hside, if_neg h, if_pos he, if_neg horder]
  by_cases hknown : d.position ∈ known
  · rw [if_pos (.inl hknown), if_pos hknown]
  · rw [if_neg (by simpa using hknown), if_neg hknown]
    exact handleSlaveFill_pending rfl rfl

/-- A copy without a position is not among those that a closing deal reduces. -/
theorem find_reduceFifo_unfilled {position volume : ℕ} (hm : m ∈ ms.rows) (hheld : m.held = none) :
    (reduceFifo account position volume ms).find m.clientOrderId = some m := by
  have hfind : ms.find m.clientOrderId = some m := Table.find_of_mem hm
  rw [find_not_taken, hfind]
  intro x hx hc
  obtain ⟨hmem, hk, hle⟩ := mem_takenFrom hx
  have hon := (shared_pos hk hle).2.1
  rw [Table.eq_of_find hfind hmem hc, Mapping.slavePositionId, hheld] at hon
  cases hon

/-- The copy has the deal's position and volume, and a close of its master position finds it. -/
structure FillBooked (account : ℕ) (m : Mapping) (d : ReportDeal) (ms : Mappings) : Prop where
  held : ms.find m.clientOrderId = some { m with held := some ⟨d.position, d.volume⟩ }
  reached : ∀ p, m.masterPositionId = some p → ⟨account, d.position, d.volume⟩ ∈ positionEntries ms p

theorem not_fillBooked (hheld : m.held = none) (h : ms.find m.clientOrderId = some m) :
    ¬ FillBooked account m d ms := by
  intro hb
  have := congrArg Mapping.held (some.inj (h.symm.trans hb.held))
  rw [hheld] at this
  cases this

section Fill

variable (cfg gates now) (positions : List ReportPosition) (hlevel : Level s account t)
  (hd : d.ticket = t.lastTicket + 1) (hside : d.dealType.side ≠ none) (hm : m ∈ s.service.mappings.rows)
  (hheld : m.held = none)
include hlevel hd hside hm hheld

/-- A fill that adds to a position. -/
theorem fillBooked_opening (he : d.entry = .entryIn) (hacc : m.slaveAccountId = account)
    (hact : m.status = .active)
    (horder : m.slaveOrderId = some d.order) (hticket : d.order ≠ 0) :
    FillBooked account m d (s.booked cfg gates now account ⟨positions, [], [d]⟩).service.mappings ↔
      d.position ∉ knownPositions account s.service.mappings := by
  have hfind : s.service.mappings.find m.clientOrderId = some m := Table.find_of_mem hm
  obtain ⟨w, f, hf, hbooked⟩ := booked_own cfg gates now positions hlevel hd
  rw [hbooked, bookDeal_opening _ hside hf he hticket]
  by_cases hknown : d.position ∈ knownPositions account s.service.mappings
  · rw [if_pos hknown]
    exact iff_of_false (not_fillBooked hheld hfind) (not_not_intro hknown)
  · rw [if_neg hknown]
    refine iff_of_true ?_ hknown
    have hrow : ((activatePendingFill account (some d.order) d.position d.volume s.service.mappings).getD
        s.service.mappings).find m.clientOrderId = some { m with held := some ⟨d.position, d.volume⟩ } := by
      have hin : m.isOrder account (some d.order) = true := by simp [Mapping.isOrder, hacc, horder, hact]
      unfold activatePendingFill
      rw [find_updateFound, hfind, map_some, if_pos hin, hact]
    refine ⟨hrow, fun p hp => ?_⟩
    exact mem_positionEntries.2 ⟨_, (Table.find_eq_some hrow).1, hp, hact, _, rfl, by rw [hacc]⟩

/-- A fill that reduces, empties or flips the net position is not booked on its copy. -/
theorem not_fillBooked_closing (he : d.entry.isClose = true) (hnet : cfg.netting account = true) :
    ¬ FillBooked account m d (s.booked cfg gates now account ⟨positions, [], [d]⟩).service.mappings := by
  obtain ⟨w, f, hf, hbooked⟩ := booked_own cfg gates now positions hlevel hd
  rw [hbooked, bookDeal_closing _ _ hnet hside hf he]
  exact not_fillBooked hheld (find_reduceFifo_unfilled hm hheld)

end Fill

/-- **A filled pending copy is booked** on its mapping, exactly if the fill adds to a position that no copy has. -/
theorem pending_fill_booked (cfg : ServerConfig) (gates : Org) (now : ℚ) (hlevel : Level s account t)
    (hnet : cfg.netting account = true) (hm : m ∈ s.service.mappings.rows) (hacc : m.slaveAccountId = account)
    (hact : m.status = .active) (horder : m.slaveOrderId = some o.ticket) (hticket : o.ticket ≠ 0)
    (hheld : m.held = none) (ho : t.orders.find? (fun o' => o'.ticket = o.ticket) = some o)
    (hmove : t.move (.trigger o.ticket) = some t') (hd : t'.deals = t.deals ++ [d]) :
    FillBooked account m d (s.booked cfg gates now account ⟨t'.reported, [], [d]⟩).service.mappings ↔
      FillIsNew s t account o := by
  have hfilled : t'.deals = t.deals ++ [t.dealFor o.symbol (sideOf o.orderType) o.volume o.ticket] := by
    simp only [move, ho, bind_some] at hmove
    split_ifs at hmove
    rw [← some.inj hmove]
    rfl
  have hdeal : d = t.dealFor o.symbol (sideOf o.orderType) o.volume o.ticket := by
    simpa using hd.symm.trans hfilled
  have hside : d.dealType.side ≠ none := by
    rw [hdeal, dealFor_side]
    exact some_ne_none _
  have hnext : d.ticket = t.lastTicket + 1 := by rw [hdeal]; rfl
  have hdorder : d.order = o.ticket := by rw [hdeal]; rfl
  have hopening (he : d.entry = .entryIn) :=
    fillBooked_opening cfg gates now t'.reported hlevel hnext hside hm hheld he
    hacc hact (hdorder ▸ horder) (hdorder ▸ hticket)
  unfold FillIsNew
  cases hp : t.positions.find o.symbol with
  | none =>
    have hposition : d.position = o.ticket := by simp [hdeal, dealFor, hp]
    have he : d.entry = .entryIn := by simp [hdeal, dealFor, hp]
    rw [hopening he, hposition]
  | some p =>
    have hposition : d.position = p.identifier := by simp [hdeal, dealFor, hp]
    have hentry : d.entry = p.entry (sideOf o.orderType) o.volume := by simp [hdeal, dealFor, hp]
    by_cases hsame : p.side = sideOf o.orderType
    · have he : d.entry = .entryIn := by rw [hentry, NetPosition.entry, if_pos hsame]
      rw [hopening he, hposition]
      exact (and_iff_right hsame).symm
    · have he : d.entry.isClose = true := by
        rw [hentry, NetPosition.entry, if_neg hsame]
        split_ifs <;> rfl
      exact iff_of_false (not_fillBooked_closing cfg gates now _ hlevel hnext hside hm hheld he hnet)
        fun h => hsame h.1

/-- The copy of master order 7, which has filled as position 6; its own order 3 waits. -/
def waitingCopy : Mapping := ⟨.co 7 2, 2, some 6, some 7, some 3, none, .active⟩

def waitingServer (others : List Mapping) (h : ((waitingCopy :: others).map Mapping.clientOrderId).Nodup) :
    Server :=
  ⟨[], ⟨⟨waitingCopy :: others, h⟩, []⟩, fun _ => 4, fun _ => []⟩

/-- Order 3 buys 2. -/
def waitingBook (positions : Table NetPosition) : NetBook :=
  ⟨positions, [⟨3, "EURUSD", .buyLimit, 2, 1, .unset⟩], [], 4, ⟨none, 1, 0⟩⟩

/-- The order fills while the account is flat. -/
theorem pending_fill_booked_flat : ∃ t', (waitingBook .empty).move (.trigger 3) = some t' ∧
    FillBooked 2 waitingCopy ⟨5, 3, 3, "EURUSD", .buy, .entryIn, 2, 1, 0⟩
      ((waitingServer [] (by decide)).booked nettingAccounts .live 0 2
        ⟨t'.reported, [], [⟨5, 3, 3, "EURUSD", .buy, .entryIn, 2, 1, 0⟩]⟩).service.mappings := by
  refine ⟨_, rfl, ?_⟩
  have hlevel : Level (waitingServer [] (by decide)) 2 (waitingBook .empty) :=
    ⟨fun k r hk => absurd hk (by simp [waitingServer]), le_rfl, forall_mem_nil _⟩
  have hnew : FillIsNew (waitingServer [] (by decide)) (waitingBook .empty) 2
    ⟨3, "EURUSD", .buyLimit, 2, 1, .unset⟩ := by
    show 3 ∉ knownPositions 2 (waitingServer [] (by decide)).service.mappings
    decide
  exact (pending_fill_booked nettingAccounts .live 0 hlevel rfl (mem_singleton_self waitingCopy) rfl rfl rfl
    (by decide) rfl rfl rfl rfl).2 hnew

/-- It fills while another copy has bought: the fill is not booked on any copy. -/
theorem add_to_copied_position_lost : ∃ t',
    (waitingBook ⟨[⟨"EURUSD", 1, 1, .buy, 3, .unset, by decide⟩], by decide⟩).move (.trigger 3) = some t' ∧
      t'.deals = [⟨5, 1, 3, "EURUSD", .buy, .entryIn, 2, 1, 0⟩] ∧
      ((waitingServer [marketCopy] (by decide)).booked nettingAccounts .live 0 2
        ⟨t'.reported, [], t'.deals⟩).service.mappings.rows = [waitingCopy, marketCopy] :=
  ⟨_, rfl, by decide, by decide⟩

end Pending

end Server

end Copier.Mt5
