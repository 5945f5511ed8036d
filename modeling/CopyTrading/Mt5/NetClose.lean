import CopyTrading.Mt5.NetTerminal
import CopyTrading.Mt5.Steps

/-!
# Mt5.NetClose — the closes of a netting follower

The close of one copy is queued as an open on the other side, with the volume it has then, and never expires.  It
takes from the net position as long as the net position covers every close that may still be executed; a stop that
is hit in between leaves less, and the close then opens a position of its own (`close_creates_exposure`).
-/

namespace Copier.Mt5

open List

/-! ### Outstanding closes -/

/-- Symbol and side of a market order. -/
def CommandRow.market (r : CommandRow) : Option (String × Side) :=
  match r.payload with
  | .openMarket symbol side _ _ _ => some (symbol, side)
  | _ => none

/-- The lots that the terminal asks the market for. -/
def CommandRow.lots (specs : String → Option SymbolSpec) (r : CommandRow) : ℕ :=
  match r.payload with
  | .openMarket symbol _ volume _ _ => ((specs symbol).map fun spec => normalizeLots spec volume).getD 0
  | _ => 0

/-- A close that may still be executed: it has not been, and it is open or about to be run. -/
def CommandRow.outstanding (account : ℕ) (ran inbox : List ℕ) (r : CommandRow) : Bool :=
  r.closing && r.accountId = account && r.id ∉ ran && (r.isOpen || r.id ∈ inbox)

/-- What the outstanding closes of a symbol take, by the side they trade. -/
def closeLots (specs : String → Option SymbolSpec) (account : ℕ) (ran inbox : List ℕ) (x : String × Side)
    (rows : List CommandRow) : ℕ :=
  (rows.map fun r => if r.outstanding account ran inbox ∧ r.market = some x then r.lots specs else 0).sum

/-- What a net position has for a trade on `side` to take. -/
def NetBook.against (t : NetBook) (x : String × Side) : ℕ :=
  match x.2 with
  | .sell => (t.net x.1).toNat
  | .buy => (-t.net x.1).toNat

section Outstanding

variable {specs : String → Option SymbolSpec} {account : ℕ} {ran ran' inbox inbox' : List ℕ}
  {rows new : List CommandRow} {x : String × Side} {g : CommandRow → CommandRow} {r r' : CommandRow}

theorem market_same (h : SameLabel r r') : r'.market = r.market := by
  simp only [CommandRow.market, h.payload]

theorem lots_same (h : SameLabel r r') : r'.lots specs = r.lots specs := by
  simp only [CommandRow.lots, h.payload]

/-- Closes that drop out leave less to take. -/
theorem closeLots_le (specs : String → Option SymbolSpec) (x : String × Side) (hg : ∀ r ∈ rows, SameLabel r (g r))
    (ho : ∀ r ∈ rows, (g r).outstanding account ran' inbox' = true → r.outstanding account ran inbox = true)
    (hnew : ∀ r ∈ new, r.closing = false) :
    closeLots specs account ran' inbox' x (rows.map g ++ new) ≤ closeLots specs account ran inbox x rows := by
  have hzero : (new.map fun r =>
      if r.outstanding account ran' inbox' ∧ r.market = some x then r.lots specs else 0).sum = 0 := by
    rw [sum_eq_zero_iff]
    intro n hn
    obtain ⟨r, hr, rfl⟩ := mem_map.1 hn
    rw [if_neg]
    simp [CommandRow.outstanding, hnew r hr]
  unfold closeLots
  rw [map_append, sum_append, hzero, add_zero, map_map]
  refine sum_le_sum fun r hr => ?_
  simp only [Function.comp_apply, market_same (hg r hr), lots_same (hg r hr)]
  split_ifs with h h'
  · exact le_rfl
  · exact absurd ⟨ho r hr h.1, h.2⟩ h'
  · exact Nat.zero_le _
  · exact le_rfl

theorem lots_le_closeLots (specs : String → Option SymbolSpec) (hr : r ∈ rows)
    (ho : r.outstanding account ran inbox = true)
    (hx : r.market = some x) : r.lots specs ≤ closeLots specs account ran inbox x rows := by
  refine le_sum_of_mem (mem_map.2 ⟨r, hr, ?_⟩)
  rw [if_pos ⟨ho, hx⟩]

/-- A close that is run drops out with its lots. -/
theorem closeLots_ran (specs : String → Option SymbolSpec) (hr : r ∈ rows)
    (ho : r.outstanding account ran inbox = true) (hx : r.market = some x)
    (hin : ∀ i ∈ inbox', i ∈ inbox) :
    closeLots specs account (r.id :: ran) inbox' x rows + r.lots specs ≤
      closeLots specs account ran inbox x rows := by
  obtain ⟨pre, post, hsplit⟩ := append_of_mem hr
  have hother : ∀ r' ∈ rows,
    (if r'.outstanding account (r.id :: ran) inbox' ∧ r'.market = some x then r'.lots specs
      else 0) ≤ if r'.outstanding account ran inbox ∧ r'.market = some x then r'.lots specs else 0 := by
    intro r' _
    split_ifs with h h'
    · exact le_rfl
    · refine absurd ⟨?_, h.2⟩ h'
      have h₁ := h.1
      simp only [CommandRow.outstanding, Bool.and_eq_true, Bool.or_eq_true, decide_eq_true_eq, mem_cons,
        not_or] at h₁ ⊢
      exact ⟨⟨h₁.1.1, h₁.1.2.2⟩, h₁.2.imp_right (hin _)⟩
    · exact Nat.zero_le _
    · exact le_rfl
  have hself : (if r.outstanding account (r.id :: ran) inbox' ∧ r.market = some x then r.lots specs else 0)
    = 0 := by
    rw [if_neg]
    simp [CommandRow.outstanding]
  have hpre := sum_le_sum (l := pre) fun r' hr' =>
    hother r' (hsplit ▸ mem_append_left _ hr')
  have hpost := sum_le_sum (l := post) fun r' hr' =>
    hother r' (hsplit ▸ mem_append_right _ (mem_cons_of_mem r hr'))
  unfold closeLots
  rw [hsplit, map_append, map_append, map_cons, map_cons, sum_append, sum_append,
    sum_cons, sum_cons, hself, if_pos ⟨ho, hx⟩]
  omega

end Outstanding

/-! ### The net position covers them -/

/-- The net positions cover the outstanding closes. -/
def Covered (specs : String → Option SymbolSpec) (account : ℕ) (t : NetBook) (ran inbox : List ℕ)
    (rows : List CommandRow) : Prop :=
  ∀ r ∈ rows, r.outstanding account ran inbox = true → ∀ x ∈ r.market,
    closeLots specs account ran inbox x rows ≤ t.against x

instance (specs : String → Option SymbolSpec) (account : ℕ) (t : NetBook) (ran inbox : List ℕ)
    (rows : List CommandRow) : Decidable (Covered specs account t ran inbox rows) := by
  unfold Covered
  infer_instance

section Covered

variable {specs : String → Option SymbolSpec} {account : ℕ} {t : NetBook}
  {ran ran' inbox inbox' : List ℕ} {rows new : List CommandRow} {g : CommandRow → CommandRow}
  {x : String × Side}

theorem Covered.mono (h : Covered specs account t ran inbox rows) (hg : ∀ r ∈ rows, SameLabel r (g r))
    (ho : ∀ r ∈ rows, (g r).outstanding account ran' inbox' = true → r.outstanding account ran inbox = true)
    (hnew : ∀ r ∈ new, r.closing = false) : Covered specs account t ran' inbox' (rows.map g ++ new) := by
  intro r' hr' ho' x hx
  rcases mem_append.1 hr' with hr' | hr'
  · obtain ⟨r, hr, rfl⟩ := mem_map.1 hr'
    rw [market_same (hg r hr)] at hx
    exact (closeLots_le specs x hg ho hnew).trans (h r hr (ho r hr ho') x hx)
  · simp [CommandRow.outstanding, hnew r' hr'] at ho'

/-- The same rows, fewer of them outstanding. -/
theorem Covered.weaken (h : Covered specs account t ran inbox rows)
    (ho : ∀ r ∈ rows, r.outstanding account ran' inbox' = true → r.outstanding account ran inbox = true) :
    Covered specs account t ran' inbox' rows := by
  have hm : Covered specs account t ran' inbox' (rows.map id ++ []) :=
    h.mono (fun r _ => .refl r) ho (forall_mem_nil _)
  rwa [map_id, append_nil] at hm

/-- What is left to take after a covered trade. -/
theorem against_fill {v : ℕ} (order : ℕ) (levels : Levels) (hv : v ≤ t.against x) (hpos : 0 < v)
    (y : String × Side) : (y = x → (t.fill x.1 x.2 v order levels).against y = t.against y - v) ∧
      (y ≠ x → t.against y ≤ (t.fill x.1 x.2 v order levels).against y) := by
  obtain ⟨symbol, side⟩ := x
  obtain ⟨symbol', side'⟩ := y
  simp only [NetBook.against, NetBook.net_fill] at hv ⊢
  by_cases hs : symbol' = symbol
  · subst hs
    cases side <;> cases side' <;> simp [signed] at hv ⊢ <;> omega
  · simp [hs]

/-- **A covered close only takes**: the net volume falls by what it trades. -/
theorem net_covered {v order : ℕ} {levels : Levels} (hv : v ≤ t.against x) (symbol : String) :
    |(t.fill x.1 x.2 v order levels).net symbol| ≤ |t.net symbol| := by
  obtain ⟨symbol', side⟩ := x
  simp only [NetBook.against] at hv
  rw [NetBook.net_fill]
  by_cases hs : symbol = symbol'
  · subst hs
    cases side <;> simp only [if_true, signed, Int.abs_eq_natAbs] at hv ⊢ <;> omega
  · simp [hs]

end Covered

/-! ### Runs -/

namespace Exchange

variable {server : ServerConfig} {account : ℕ} {specs : String → Option SymbolSpec}
  {s s' : Exchange NetBook} {a : ExchangeAction NetBook.Move} {line : CommandRow}
  {rest : List CommandRow}

/-- The ids of the commands that were run. -/
def ran {τ : Type} (s : Exchange τ) : List ℕ := s.executed.map Ack.commandId

/-- The ids of the lines that are still to be executed. -/
def queue {τ : Type} (s : Exchange τ) : List ℕ := s.expert.inbox.map CommandRow.id

/-- Whatever else happens leaves enough for the outstanding closes: a close is queued, or turns up again in an old
reply, only while the net position covers it, and no other trade takes from what they need. -/
def Backed (server : ServerConfig) (account : ℕ) (specs : String → Option SymbolSpec) :
    ExchangeAction NetBook.Move → Exchange NetBook → Prop
  | .dispatch gates intents, s =>
    Covered specs account s.terminal s.ran s.queue (s.server.dispatch server gates s.clock intents).rows
  | .poll _ _ (.stale _ reply), s =>
    Covered specs account s.terminal s.ran (reply.map CommandRow.id) s.server.rows
  | .own m, s => ∀ t ∈ NetBook.move m s.terminal, Covered specs account t s.ran s.queue s.server.rows
  | .execute, s => Recalled (.execute : ExchangeAction NetBook.Move) s ∧
      ∀ line ∈ s.expert.inbox.head?, s.expert.findDone line.id = none → line.closing = false →
        Covered specs account (NetBook.exec specs line.payload s.terminal).1 s.ran s.queue s.server.rows
  | _, _ => True

instance (a : ExchangeAction NetBook.Move) (s : Exchange NetBook) :
    Decidable (Backed server account specs a s) := by
  unfold Backed
  split <;> infer_instance

theorem Backed.recalled (h : Backed server account specs a s) : Recalled a s := by
  cases a with
  | execute => exact h.1
  | _ => trivial

/-- Commands run once, lines are rows, and the net positions cover the outstanding closes. -/
structure Backing (server : ServerConfig) (account : ℕ) (specs : String → Option SymbolSpec)
    (s : Exchange NetBook) :
    Prop where
  counted : s.Counted
  once : s.Once
  registered : Registered s.server
  traced : s.Traced (netConfig server account specs)
  covered : Covered specs account s.terminal s.ran s.queue s.server.rows

theorem backing_init (t : NetBook) : (init t).Backing server account specs where
  counted := counted_init t
  once := once_init t
  registered := registered_init t
  traced := traced_init t
  covered := by simp [init, Covered]

/-- A report settles closes and queues none. -/
theorem covered_handle (server : ServerConfig) (gates : Org) (account' : ℕ) (report : FollowerReport)
    {inbox : List ℕ} (h : Covered specs account s.terminal s.ran inbox s.server.rows) :
    Covered specs account s.terminal s.ran inbox
      (s.server.sync server gates s.clock account' report).1.rows := by
  obtain ⟨f, new, hf, hnew, hrows, -⟩ := sync_quiet server gates s.clock account' s.server report
  rw [hrows, map_append, map_map]
  have hsame : ∀ r, SameLabel r ((f r).polled account' s.clock) := fun r =>
    (settles_same (hf r)).trans (polled_same _ _ _)
  refine h.mono (fun r _ => hsame r) (fun r hr ho => ?_) fun r hr => ?_
  · have hopen : ((f r).polled account' s.clock).isOpen = true → r.isOpen = true := by
      intro hp
      have hfr : (f r).isOpen = true := by
        by_contra hno
        rw [polled_settled (by simpa using hno)] at hp
        exact hno hp
      rcases hf r with heq | ⟨hr, -⟩
      · rwa [heq] at hfr
      · exact hr
    simp only [CommandRow.outstanding, Function.comp_apply, Bool.and_eq_true, Bool.or_eq_true, decide_eq_true_eq,
      (hsame r).id, (hsame r).closing, (hsame r).accountId] at ho ⊢
    exact ⟨ho.1, ho.2.imp_left hopen⟩
  · obtain ⟨r₀, hr₀, rfl⟩ := mem_map.1 hr
    rw [(polled_same _ _ _).closing]
    exact (hnew r₀ hr₀).2

/-- The lines of a reply are open rows. -/
theorem covered_reply (server : ServerConfig) (gates : Org) (report : FollowerReport) (hn : Numbered s.server.rows)
    (h : Covered specs account s.terminal s.ran [] s.server.rows) :
    Covered specs account s.terminal s.ran
      ((s.server.sync server gates s.clock account report).2.map CommandRow.id)
      (s.server.sync server gates s.clock account report).1.rows := by
  refine (covered_handle server gates account report h).weaken fun r hr ho => ?_
  have hnum : Numbered (s.server.sync server gates s.clock account report).1.rows := by
    obtain ⟨f, mid, hf, hmid, hrows, -⟩ := sync_rows server gates s.clock account s.server report
    rw [hrows]
    exact ((hn.map fun r => settles_id (hf r)).appended hmid).map fun r => polled_id
  simp only [CommandRow.outstanding, Bool.and_eq_true, Bool.or_eq_true, decide_eq_true_eq] at ho ⊢
  refine ⟨ho.1, .inl ?_⟩
  rcases ho.2 with ho | hin
  · exact ho
  · obtain ⟨line, hline, hid⟩ := mem_map.1 hin
    obtain ⟨f, new, -, -, hrows, hreply⟩ := sync_quiet server gates s.clock account s.server report
    rw [hreply] at hline
    obtain ⟨hmem, hdue⟩ := mem_filter.1 hline
    obtain ⟨r₁, hr₁, rfl⟩ := mem_map.1 hmem
    -- the line's row was handed over, so it is open
    have hr' : r₁.polled account s.clock ∈ (s.server.sync server gates s.clock account report).1.rows := by
      rw [hrows]
      exact mem_map_of_mem hr₁
    have heq : r = r₁.polled account s.clock := hnum.unique hr hr' (by
      rw [polled_id, ← hid, (failStale_same r₁).id])
    rw [due_failStale, Bool.and_eq_true, Bool.not_eq_true'] at hdue
    rw [heq, CommandRow.polled, CommandRow.failStale, if_neg (by simp [hdue.1]), CommandRow.deliver, if_pos hdue.2]
    rfl

section

variable (h : s.Backing server account specs)
include h

/-- **Running an outstanding close** takes from the net position, and leaves the others covered. -/
theorem Backing.runs_close
    (hin : s.expert.inbox = line :: rest) (hran : line.id ∉ s.ran) (hclosing : line.closing = true) :
    (∀ symbol, |(NetBook.exec specs line.payload s.terminal).1.net symbol| ≤ |s.terminal.net symbol|) ∧
      Covered specs account (NetBook.exec specs line.payload s.terminal).1 (line.id :: s.ran)
        (rest.map CommandRow.id) s.server.rows := by
  obtain ⟨hacc, r, hr, hs⟩ := h.traced.inbox line (hin ▸ mem_cons_self)
  have hrest : ∀ i ∈ rest.map CommandRow.id, i ∈ s.queue := by
    intro i hi
    rw [queue, hin, map_cons]
    exact mem_cons_of_mem _ hi
  have hweak : ∀ r' ∈ s.server.rows, r'.outstanding account (line.id :: s.ran) (rest.map CommandRow.id) = true →
      r'.outstanding account s.ran s.queue = true := by
    intro r' _ ho
    simp only [CommandRow.outstanding, Bool.and_eq_true, Bool.or_eq_true, decide_eq_true_eq, mem_cons,
      not_or] at ho ⊢
    exact ⟨⟨ho.1.1, ho.1.2.2⟩, ho.2.imp_right (hrest _)⟩
  have hout : r.outstanding account s.ran s.queue = true := by
    simp only [CommandRow.outstanding, Bool.and_eq_true, Bool.or_eq_true, decide_eq_true_eq, hs.id, hs.closing,
      hs.accountId]
    refine ⟨⟨⟨hclosing, hacc⟩, hran⟩, .inr ?_⟩
    rw [queue, hin]
    exact mem_cons_self
  cases hp : line.payload with
  | openMarket symbol side volume levels comment =>
    have hrp : r.payload = .openMarket symbol side volume levels comment := hs.payload.trans hp
    have hx : r.market = some (symbol, side) := by rw [CommandRow.market, hrp]
    have hcov := h.covered r hr hout (symbol, side) hx
    have hlots := (lots_le_closeLots specs hr hout hx).trans hcov
    show (∀ symbol', |(s.terminal.doOpen specs symbol side volume levels).1.net symbol'| ≤ _) ∧
      Covered specs account
      (s.terminal.doOpen specs symbol side volume levels).1 _ _ _
    rcases s.terminal.doOpen_cases specs symbol side volume levels with hno | ⟨spec, v, hspec, hpos, hv, hyes⟩
    · rw [hno]
      exact ⟨fun _ => le_rfl, h.covered.weaken hweak⟩
    · rw [hyes]
      have hle : v ≤ r.lots specs := by
        rw [hv, CommandRow.lots, hrp]
        simp only [hspec, Option.map_some, Option.getD_some]
        exact Market.fills_le _ _
      have hagainst : v ≤ s.terminal.against (symbol, side) := hle.trans hlots
      refine ⟨fun symbol' => net_covered (x := (symbol, side)) hagainst symbol', fun r' hr' ho' y hy => ?_⟩
      obtain ⟨hsame, hother⟩ := against_fill (s.terminal.lastTicket + 1) levels hagainst hpos y
      by_cases hyx : y = (symbol, side)
      · rw [hsame hyx, hyx]
        have hdrop := closeLots_ran specs hr hout hx hrest
        rw [hs.id] at hdrop
        omega
      · refine le_trans ?_ (hother hyx)
        have hold := h.covered.weaken hweak r' hr' ho' y hy
        exact hold
  | _ =>
    have hkind := (h.registered.labelled r hr).closing (hs.closing.trans hclosing)
    rw [hs.payload, hp] at hkind
    cases hkind

theorem Backing.not_ran (ha : Backed server account specs .execute s)
    (hin : s.expert.inbox = line :: rest)
    (hnone : s.expert.findDone line.id = none) : line.id ∉ s.ran :=
  h.once.not_ran hnone (ha.1 line (by rw [hin]; rfl))

theorem covered_step (ha : Backed server account specs a s)
    (hf : fire (netConfig server account specs) a s = some s') :
    Covered specs account s'.terminal s'.ran s'.queue s'.server.rows := by
  cases a with
  | dispatch gates intents =>
    cases hf
    exact ha
  | remember levels =>
    cases hf
    exact h.covered
  | operate account' payload =>
    cases hf
    have hm : Covered specs account s.terminal s.ran s.queue (s.server.rows.map id ++
        [queuedRow s.server.rows.length account' server.org s.clock payload none false false]) :=
      h.covered.mono (fun r _ => .refl r) (fun _ _ ho => ho) fun r hr => by rw [mem_singleton.1 hr]; rfl
    rwa [map_id] at hm
  | tick now =>
    simp only [fire] at hf
    split_ifs at hf
    cases hf
    exact h.covered
  | poll gates count fate =>
    obtain ⟨hempty, ht, hx, -, hrest⟩ := poll_cases hf
    rw [ran, hx, ht]
    cases fate with
    | delivered =>
      have hcov := h.covered
      rw [queue, hempty] at hcov
      rw [queue, hrest.2, hrest.1]
      exact covered_reply server gates _ h.counted.numbered hcov
    | replyLost =>
      rw [queue, hrest.2, hrest.1]
      exact covered_handle server gates account _ h.covered
    | stale handled reply =>
      have hcov : Covered specs account s.terminal s.ran (reply.map CommandRow.id) s.server.rows := ha
      rw [queue, hrest.2]
      rcases hrest.1 with hs | hs
      · rw [hs]
        exact covered_handle server gates account _ hcov
      · rw [hs]
        exact hcov
  | report gates account' report =>
    cases hf
    exact covered_handle server gates account' report h.covered
  | execute =>
    have hweak : ∀ line rest, s.expert.inbox = line :: rest → ∀ {t : NetBook},
        Covered specs account t s.ran s.queue s.server.rows → ∀ ran', (∀ i ∈ s.ran, i ∈ ran') →
        Covered specs account t ran' (rest.map CommandRow.id) s.server.rows := by
      intro line rest hin t hcov ran' hsub
      refine hcov.weaken fun r _ ho => ?_
      simp only [CommandRow.outstanding, Bool.and_eq_true, Bool.or_eq_true, decide_eq_true_eq] at ho ⊢
      refine ⟨⟨ho.1.1, fun hi => ho.1.2 (hsub _ hi)⟩, ho.2.imp_right fun hi => ?_⟩
      rw [queue, hin, map_cons]
      exact mem_cons_of_mem _ hi
    obtain ⟨line, rest, hin, ⟨k, hk, rfl⟩ | ⟨k, hnone, hkdef, rfl⟩⟩ := execute_cases hf
    · exact hweak line rest hin h.covered _ fun _ hi => hi
    · subst hkdef
      by_cases hclosing : line.closing = true
      · exact (h.runs_close hin (h.not_ran ha hin hnone) hclosing).2
      · refine hweak line rest hin (ha.2 line (by rw [hin]; rfl) hnone (by simpa using hclosing)) _ fun i hi => ?_
        exact mem_cons_of_mem _ hi
  | own m =>
    obtain ⟨t, ht, rfl⟩ := Option.map_eq_some_iff.1 hf
    exact ha t ht
  | restart =>
    cases hf
    refine h.covered.weaken fun r _ ho => ?_
    simp only [CommandRow.outstanding, Bool.and_eq_true, Bool.or_eq_true, decide_eq_true_eq] at ho ⊢
    exact ⟨ho.1, ho.2.imp_right fun hi => absurd hi not_mem_nil⟩

theorem Backing.step (ha : Backed server account specs a s)
    (hf : fire (netConfig server account specs) a s = some s') : s'.Backing server account specs :=
  ⟨h.counted.step hf, h.once.step ha.recalled hf, registered_step h.registered hf, h.traced.step hf,
    covered_step h ha hf⟩

end

/-- **A covered close never adds exposure.**  For every book to start with, every symbol's lots, and every
interleaving of dispatches, operator commands, polls whatever their fate, old reports, terminal-side trades and
restarts that leaves the outstanding closes covered: executing a command queued under a `:close` client order id
increases no symbol's absolute net volume. -/
theorem netting_close_takes {t : NetBook}
    (h : Machine.Run (fire (netConfig server account specs)) (Backed server account specs) (init t) s)
    (ha : Backed server account specs .execute s) (hline : ∀ line ∈ s.expert.inbox.head?, line.closing = true)
    (hf : fire (netConfig server account specs) .execute s = some s') (symbol : String) :
    |s'.terminal.net symbol| ≤ |s.terminal.net symbol| := by
  have hb : s.Backing server account specs :=
    h.invariant (P := fun s => s.Backing server account specs) (backing_init t) fun _ _ _ ha hi hf => hi.step ha hf
  obtain ⟨line, rest, hin, ⟨k, -, rfl⟩ | ⟨k, hnone, -, rfl⟩⟩ := execute_cases hf
  · exact le_rfl
  · have hclosing : line.closing = true := hline line (by rw [hin]; rfl)
    exact (hb.runs_close hin (hb.not_ran ha hin hnone) hclosing).1 symbol

def sampleBook : NetBook := .flat ⟨none, 1, 0⟩

/-- The close of the copy of master position `p`. -/
def sampleClose (p volume : ℕ) : SlaveIntent := .closePosition ⟨2, 1, volume, some p⟩

/-- A copy of 100 is opened and closed. -/
theorem netting_close_takes_sample :
    ∃ s s' : Exchange NetBook, Machine.Run (fire (netConfig nettingAccounts 2 anyLots))
        (Backed nettingAccounts 2 anyLots) (init sampleBook) s ∧
      fire (netConfig nettingAccounts 2 anyLots) .execute s = some s' ∧ s.terminal.net "EURUSD" = 100 ∧
      s'.terminal.net "EURUSD" = 0 ∧ |s'.terminal.net "EURUSD"| ≤ |s.terminal.net "EURUSD"| := by
  obtain ⟨s, hr, ha, hline, hnet, hnext⟩ : ∃ s : Exchange NetBook,
      Machine.Run (fire (netConfig nettingAccounts 2 anyLots)) (Backed nettingAccounts 2 anyLots)
        (init sampleBook) s ∧ Backed nettingAccounts 2 anyLots .execute s ∧
      (∀ line ∈ s.expert.inbox.head?, line.closing = true) ∧ s.terminal.net "EURUSD" = 100 ∧
      ((fire (netConfig nettingAccounts 2 anyLots) .execute s).any fun s' => s'.terminal.net "EURUSD" = 0)
        = true :=
    Machine.exists_run [.dispatch .live [sampleOpen 5 100 .buy], .tick 1, .poll .live 9 .delivered, .execute,
      .poll .live 9 .delivered,
        .dispatch .live [sampleClose 5 100], .poll .live 9 .delivered]
      (init sampleBook) (by decide +kernel)
  obtain ⟨s', hf, hzero⟩ := (Option.any_eq_true _ _).1 hnext
  exact ⟨s, s', hr, hf, hnet, of_decide_eq_true hzero, netting_close_takes hr ha hline hf "EURUSD"⟩

/-- The close of a copy of 100 is queued; a stop empties the net position before it is polled; the close is
executed and opens 100 on the other side. -/
theorem close_creates_exposure :
    ∃ s : Exchange NetBook, Machine.Run (fire (netConfig nettingAccounts 2 anyLots)) (fun _ _ => True)
        (init sampleBook) s ∧ s.terminal.net "EURUSD" = 0 ∧
      (∀ line ∈ s.expert.inbox.head?, line.closing = true) ∧
      ((fire (netConfig nettingAccounts 2 anyLots) .execute s).any fun s' => s'.terminal.net "EURUSD" = -100)
        = true :=
  Machine.exists_run [.dispatch .live [sampleOpen 5 100 .buy], .tick 1, .poll .live 9 .delivered, .execute,
    .poll .live 9 .delivered,
      .dispatch .live [sampleClose 5 100], .own (.close 1 100), .poll .live 9 .delivered]
    (init sampleBook) (by decide +kernel)

end Exchange

end Copier.Mt5
