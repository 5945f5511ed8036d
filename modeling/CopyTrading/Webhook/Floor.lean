import CopyTrading.Lib.Table
import CopyTrading.Webhook.Capped

/-!
# Webhook.Floor — the master's book under alerts side by side (`_handle` step 9, `_handle_vt_ltf`)

The receipts are written under the advisory lock, the calls are made without it: an alert reads `/state`, checks
what it read, and posts its order some time later.  Here the calls of the deliveries are made one at a time, in any
order.  `held` is what the master has from orders that the copier accepted; only orders of this receiver add to it.
-/

namespace Webhook

open List Option Function

/-! ### The book -/

/-- An order that the copier accepted: a position, or an order that rests. -/
structure Entry where
  id : ℕ
  symbol : String
  side : BookSide
  resting : Bool
  deriving DecidableEq

/-- Two spellings of one symbol. -/
def sameSymbol (a b : String) : Bool := upper a.toList = upper b.toList

/-- `/state` shows what is held. -/
structure Current (held : List Entry) (book : Book) : Prop where
  total : held.length ≤ book.masterPositions.length + book.pendingOrders.length
  positions : ∀ e ∈ held, e.resting = false →
    ∃ p ∈ book.masterPositions, p.symbol.any (sameSymbol e.symbol) = true ∧ p.side = e.side
  orders : ∀ e ∈ held, e.resting = true →
    ∃ o ∈ book.pendingOrders, o.symbol.any (sameSymbol e.symbol) = true ∧ o.side = some e.side

/-- The order may be placed: there is room, and nothing of the other side is held on its symbol. -/
structure Admits (w : Workspace) (held : List Entry) (o : Order) : Prop where
  room : held.length < w.maxOpen
  sides : ∀ e ∈ held, sameSymbol e.symbol o.symbol = true → e.side = o.side

theorem Admits.of_subset {w : Workspace} {held held' : List Entry} {o : Order} (h : Admits w held o)
    (hlen : held'.length ≤ held.length)
    (hmem : ∀ e' ∈ held', ∃ e ∈ held, e.symbol = e'.symbol ∧ e.side = e'.side) : Admits w held' o where
  room := lt_of_le_of_lt hlen h.room
  sides e' he' hsymbol := by
    obtain ⟨e, he, hs, hside⟩ := hmem e' he'
    exact hside ▸ h.sides e he (hs ▸ hsymbol)

instance (held : List Entry) (book : Book) : Decidable (Current held book) :=
  decidable_of_iff (_ ∧ _ ∧ _) ⟨fun h => ⟨h.1, h.2.1, h.2.2⟩, fun h => ⟨h.1, h.2, h.3⟩⟩

instance (w : Workspace) (held : List Entry) (o : Order) : Decidable (Admits w held o) :=
  decidable_of_iff (_ ∧ _) ⟨fun h => ⟨h.1, h.2⟩, fun h => ⟨h.1, h.2⟩⟩

/-! ### What a job places -/

def Job.symbol : Job → String
  | .alert a => a.symbol
  | .bridge vt => vt.symbol

/-- The order of a job and its check of the book. -/
def Job.signal (w : Workspace) : Job → Option Signal
  | .alert a =>
    match a.action with
    | .buy => some (a.signal w.master .buy (a.lots.getD 0))
    | .sell => some (a.signal w.master .sell (a.lots.getD 0))
    | _ => none
  | .bridge vt => some (vt.signal w.master (vt.lots.getD 0))

/-- No order of the other side rests on the symbol; a bridge alert looks for itself. -/
def Unbracketed (w : Workspace) (held : List Entry) : Job → Prop
  | .alert a => ∀ signal ∈ Job.signal w (.alert a), ∀ e ∈ held, e.resting = true →
      sameSymbol e.symbol a.symbol = true → e.side = signal.order.side
  | .bridge _ => True

instance (w : Workspace) (held : List Entry) (job : Job) : Decidable (Unbracketed w held job) := by
  unfold Unbracketed
  cases job <;> infer_instance

/-- A job's calls as far as they have got. -/
structure Errand where
  delivery : ℕ
  job : Job
  rest : Calls Request Outcome Verdict

instance : Keyed Errand ℕ := ⟨Errand.delivery⟩

@[simp] theorem key_errand (x : Errand) : Keyed.key x = x.delivery := rfl

/-- The order that is posted next: the book has been read and checked. -/
def awaited : Calls Request Outcome Verdict → Option Order
  | .call (.order o) _ => some o
  | _ => none

/-! ### The machine -/

/-- The receiver, with the calls in progress and what the account holds. -/
structure Floor where
  receiver : Receiver
  errands : Table Errand
  held : List Entry
  nextEntry : ℕ
  /-- The accepted orders, each with what was held before it. -/
  accepted : List (Order × List Entry)

/-- What happens next on the floor. -/
inductive FloorAction where
  /-- A step of the receiver that makes no call. -/
  | door (a : ReceiverAction)
  /-- A delivery begins its calls. -/
  | start (i : ℕ) (snapshot : Option VTSnapshot)
  /-- Its next call. -/
  | call (i : ℕ) (outcome : Outcome)
  /-- Its calls are over. -/
  | judge (i : ℕ)
  /-- An entry is closed or cancelled. -/
  | gone (id : ℕ)
  /-- A resting order is filled. -/
  | fill (id : ℕ)

namespace Floor

variable (w : Workspace)

/-- What an accepted order does. -/
def land (o : Order) (s : Floor) : Floor :=
  { s with
    held := ⟨s.nextEntry, o.symbol, o.side, o.orderType ≠ .market⟩ :: s.held
    nextEntry := s.nextEntry + 1
    accepted := (o, s.held) :: s.accepted }

/-- What a call does at the copier, as far as the book goes. -/
def effect (q : Request) (outcome : Outcome) (s : Floor) : Floor :=
  match q with
  | .order o => if outcome.accepted then s.land o else s
  | _ => s

/-- The receiver's note of a call. -/
def log (id : ℕ) (d : Delivery) (q : Request) (outcome : Outcome) (s : Floor) : Floor :=
  { s with receiver := { s.receiver with sent := s.receiver.sent ++ Receiver.ordersOf id d [(q, outcome)] } }

def goOn (i : ℕ) (rest : Calls Request Outcome Verdict) (s : Floor) : Floor :=
  { s with errands := s.errands.modify i (fun x => { x with rest := rest }) (fun _ => rfl) }

/-- One action; `none` where it cannot happen. -/
def fire : FloorAction → Floor → Option Floor
  | .door (.act ..), _ => none
  | .door (.drop i), s => (Receiver.fire w (.drop i) s.receiver).map fun r =>
      { s with receiver := r, errands := s.errands.delete [i] }
  | .door a, s => (Receiver.fire w a s.receiver).map fun r => { s with receiver := r }
  | .start i snapshot, s =>
    match s.receiver.deliveries i, s.errands.find i with
    | some ⟨job, _, .acting _⟩, none =>
      some { s with errands := s.errands.insert ⟨i, job, s.receiver.calls w snapshot job⟩ }
    | _, _ => none
  | .call i outcome, s =>
    match s.receiver.deliveries i, s.errands.find i with
    | some ⟨job, receivedAt, .acting id⟩, some ⟨_, _, .call q k⟩ =>
      some (((s.effect q outcome).log id ⟨job, receivedAt, .acting id⟩ q outcome).goOn i (k outcome))
    | _, _ => none
  | .judge i, s =>
    match s.receiver.deliveries i, s.errands.find i with
    | some ⟨job, receivedAt, .acting id⟩, some ⟨_, _, .done v⟩ =>
      some { s with
        receiver := s.receiver.put i ⟨job, receivedAt, .acting id⟩ (.judged id v)
        errands := s.errands.delete [i] }
    | _, _ => none
  | .gone id, s => some { s with held := s.held.filter fun e => e.id ≠ id }
  | .fill id, s => some { s with held := s.held.map fun e => if e.id = id then { e with resting := false } else e }

/-- Nothing has been received; the master holds what it holds. -/
def opening (held : List Entry) : Floor := ⟨Receiver.init, .empty, held, (held.map Entry.id).foldl max 0 + 1, []⟩

/-! ### Orderly steps -/

/-- A read that an order may follow finds a book that shows what is held, and no order of the other side at
rest. -/
def Fresh : FloorAction → Floor → Prop
  | .call i outcome, s =>
    match s.errands.find i with
    | some ⟨_, job, .call .state _⟩ => ∀ reply ∈ (copier outcome).toOption, (job.signal w).isSome = true →
        Current s.held reply.book ∧ Unbracketed w s.held job
    | _ => True
  | _, _ => True

/-- No order is accepted while another alert is between its read and its order. -/
def Alone : FloorAction → Floor → Prop
  | .call i outcome, s =>
    match s.errands.find i with
    | some ⟨_, _, .call (.order _) _⟩ => outcome.accepted = true →
        ∀ y ∈ s.errands.rows, y.delivery ≠ i → awaited y.rest = none
    | _ => True
  | _, _ => True

end Floor

/-! ### The course of an errand -/

/-- The calls of a job on their way: no order ahead, the book to be read, or the order to be posted. -/
inductive Course (w : Workspace) (job : Job) : Calls Request Outcome Verdict → Prop
  | idle {p : Calls Request Outcome Verdict} (h : p.Only (·.isOrder = false)) : Course w job p
  | reading {signal : Signal} (h : job.signal w = some signal) :
      Course w job ((place w.maxOpen signal).bind fun r => .done (placedVerdict r))
  | ordering {signal : Signal} (h : job.signal w = some signal) :
      Course w job (((request (.order signal.order)).attempt fun _ => .done (.ok ())).bind fun r =>
        .done (placedVerdict r))

section Course

variable {w : Workspace} {job : Job} {symbol : String} {side : BookSide}

theorem course_done (v : Verdict) : Course w job (.done v) := .idle trivial

theorem course_over {P : Order → Prop} (v : Verdict) :
    Course w job (.done v) ∧ ∀ o, awaited (.done v) = some o → P o :=
  ⟨course_done v, fun o ho => absurd ho.symm (some_ne_none o)⟩


/-- The book passed the checks of a signal. -/
structure Passed (w : Workspace) (signal : Signal) (book : Book) : Prop where
  opposes : signal.opposes book = false
  room : book.masterPositions.length + book.pendingOrders.length < w.maxOpen

theorem awaited_eq_none {p : Calls Request Outcome Verdict} (h : p.Only (·.isOrder = false)) :
    awaited p = none := by
  match p, h with
  | .done _, _ => rfl
  | .call (.order o) _, h => exact absurd h.1 (by simp [Request.isOrder])
  | .call .state _, _ => rfl
  | .call .resync _, _ => rfl
  | .call (.close ..) _, _ => rfl
  | .call (.cancel ..) _, _ => rfl

/-- No job begins with an order. -/
theorem course_calls (s : Receiver) (snapshot : Option VTSnapshot) :
    Course w job (s.calls w snapshot job) ∧ awaited (s.calls w snapshot job) = none := by
  have hidle : ∀ {p : Calls Request Outcome Verdict}, p.Only (·.isOrder = false) →
      Course w job p ∧ awaited p = none := fun h => ⟨.idle h, awaited_eq_none h⟩
  cases job with
  | alert a =>
    unfold Receiver.calls act
    dsimp only
    split
    · exact hidle ((close_only w.master a.symbol).bind fun _ => trivial)
    · exact hidle ((cancel_only w.master a.symbol).bind fun _ => trivial)
    · next h => exact ⟨.reading (by simp only [Job.signal, h]), rfl⟩
    · next h => exact ⟨.reading (by simp only [Job.signal, h]), rfl⟩
  | bridge vt =>
    unfold Receiver.calls
    dsimp only
    split
    · exact hidle trivial
    · exact ⟨.reading rfl, rfl⟩

/-- **One call on**: an order comes next only right after a book that passed the checks. -/
theorem Course.step {q : Request} {k : Outcome → Calls Request Outcome Verdict} (h : Course w job (.call q k))
    (outcome : Outcome) : Course w job (k outcome) ∧ ∀ o, awaited (k outcome) = some o →
      q = .state ∧ ∃ signal reply, job.signal w = some signal ∧ o = signal.order ∧ copier outcome = .ok reply ∧
        Passed w signal reply.book := by
  generalize hp : Calls.call q k = p at h
  cases h with
  | idle honly =>
    subst hp
    refine ⟨.idle (honly.2 outcome), fun o ho => ?_⟩
    rw [awaited_eq_none (honly.2 outcome)] at ho
    cases ho
  | @reading signal hsignal =>
    cases hp
    dsimp only [Calls.bind]
    cases hreply : copier outcome with
    | error f => exact course_over _
    | ok reply =>
      dsimp only
      split_ifs with hopposes hroom
      · exact course_over _
      · exact course_over _
      · refine ⟨.ordering hsignal, fun o ho => ⟨rfl, signal, reply, hsignal, (some.inj ho).symm, rfl, ?_, ?_⟩⟩
        · exact Bool.eq_false_of_not_eq_true hopposes
        · exact not_le.1 hroom
  | ordering hsignal =>
    -- the order is the last call
    cases hp
    dsimp only [Calls.bind]
    cases copier outcome with
    | error f | ok reply => exact course_over _

theorem eq_of_ne_opposite {a b : BookSide} (h : a ≠ b.opposite) : a = b := by
  cases a <;> cases b <;> first | rfl | exact absurd rfl h

variable {held : List Entry} {book : Book}

/-- A held position is on the side that the book was not found to oppose. -/
theorem side_of_position (hcurrent : Current held book)
    (hopposes : ((findMasterPositions book symbol none).any fun p => p.side = side.opposite) = false) {e : Entry}
    (he : e ∈ held) (hrests : e.resting = false) (hsymbol : sameSymbol e.symbol symbol = true) :
      e.side = side := by
  obtain ⟨p, hp, hname, hside⟩ := hcurrent.positions e he hrests
  obtain ⟨name, hsome, hsame⟩ := (Option.any_eq_true ..).1 hname
  have hfound : p ∈ findMasterPositions book symbol none := by
    refine List.mem_filter.2 ⟨hp, (Option.any_eq_true ..).2 ⟨name, hsome, ?_⟩⟩
    simp only [sameSymbol, decide_eq_true_eq] at hsame hsymbol
    simp [named, ← hsame, hsymbol]
  refine eq_of_ne_opposite fun hne => ?_
  exact any_eq_false.1 hopposes p hfound (decide_eq_true (hside.trans hne))

/-- A held order at rest is on the side that the resting orders were not found to oppose. -/
theorem side_of_order (hcurrent : Current held book) (hupper : upper symbol.toList = symbol.toList)
    (hopposes : ((book.pendingOrders.filter fun o =>
      upper (o.symbol.getD "None").toList = symbol.toList).any fun o => o.side = some side.opposite) = false)
        {e : Entry}
    (he : e ∈ held) (hrests : e.resting = true) (hsymbol : sameSymbol e.symbol symbol = true) : e.side = side := by
  obtain ⟨o, ho, hname, hside⟩ := hcurrent.orders e he hrests
  obtain ⟨name, hsome, hsame⟩ := (Option.any_eq_true ..).1 hname
  have hfound : o ∈ book.pendingOrders.filter fun o => upper (o.symbol.getD "None").toList = symbol.toList := by
    simp only [sameSymbol, decide_eq_true_eq] at hsame hsymbol
    refine List.mem_filter.2 ⟨ho, decide_eq_true ?_⟩
    rw [hsome, getD_some, ← hsame, hsymbol, hupper]
  refine eq_of_ne_opposite fun hne => ?_
  exact any_eq_false.1 hopposes o hfound (decide_eq_true (hside.trans (congrArg some hne)))

/-- A book that shows what is held and passes the checks admits the order. -/
theorem admits_of_passed {signal : Signal} (hsignal : job.signal w = some signal)
    (hupper : upper job.symbol.toList = job.symbol.toList) (hcurrent : Current held book)
    (hlegs : Unbracketed w held job) (hpassed : Passed w signal book) : Admits w held signal.order := by
  refine ⟨lt_of_le_of_lt hcurrent.total hpassed.room, fun e he hsymbol => ?_⟩
  cases job with
  | alert a =>
    obtain ⟨side, rfl⟩ : ∃ side, signal = a.signal w.master side (a.lots.getD 0) := by
      simp only [Job.signal] at hsignal
      split at hsignal
      · exact ⟨.buy, (some.inj hsignal).symm⟩
      · exact ⟨.sell, (some.inj hsignal).symm⟩
      · cases hsignal
    cases hrests : e.resting with
    | false => exact side_of_position hcurrent hpassed.opposes he hrests hsymbol
    | true => exact hlegs _ hsignal e he hrests hsymbol
  | bridge vt =>
    cases hsignal
    obtain ⟨hpositions, horders⟩ := Bool.or_eq_false_iff.1 hpassed.opposes
    have hopposite : (if vt.bias = .long then BookSide.sell else .buy) =
        (if vt.bias = .long then BookSide.buy else .sell).opposite := by
      split_ifs <;> rfl
    rw [hopposite] at hpositions horders
    cases hrests : e.resting with
    | false => exact side_of_position hcurrent hpositions he hrests hsymbol
    | true => exact side_of_order hcurrent hupper horders he hrests hsymbol

end Course

/-! ### The jobs -/

section Jobs

variable {w : Workspace} {s s' : Receiver} {d : Delivery}

/-- The symbol of a job is a ticker. -/
theorem upper_read {body : Json} {job : Job} (h : Receiver.read w body = some job) :
    upper job.symbol.toList = job.symbol.toList := by
  obtain ⟨fields, rfl, ⟨a, ha, rfl | ⟨_, symbol, hsymbol, rfl⟩⟩ |
    ⟨vt, hvt, -, rfl | ⟨_, symbol, hsymbol, rfl⟩⟩⟩ := Receiver.read_cases h
  · exact upper_ticker (parseAlert_parts ha).1
  · exact upper_ticker hsymbol
  · exact upper_ticker (parseVtAlert_parts hvt).1
  · exact upper_ticker hsymbol

/-- A statement of a delivery moves it to another phase. -/
theorem runDelivery_eq {k : ℕ} (h : s.runDelivery w k d = some s') :
    ∃ (r : Receiver) (phase : Phase), r.put k d phase = s' ∧ r.deliveries = s.deliveries := by
  unfold Receiver.runDelivery at h
  split at h
  · split_ifs at h
    exact ⟨_, _, some.inj h, rfl⟩
  · split_ifs at h <;> exact ⟨_, _, some.inj h, rfl⟩
  · split_ifs at h <;> exact ⟨_, _, some.inj h, rfl⟩
  · exact ⟨_, _, some.inj h, rfl⟩
  · exact ⟨_, _, some.inj h, rfl⟩
  · exact ⟨_, _, some.inj h, rfl⟩
  · cases h
  · exact ⟨_, _, some.inj h, rfl⟩
  · cases h

theorem job_of_put {r : Receiver} (hr : r.deliveries = s.deliveries) {k : ℕ}
    (hk : s.deliveries k = some d) {phase : Phase} {i : ℕ} {d' : Delivery} (h :
      (r.put k d phase).deliveries i = some d') :
    ∃ e, s.deliveries i = some e ∧ e.job = d'.job := by
  simp only [Receiver.put, update_apply] at h
  split_ifs at h with hi
  · cases h
    exact ⟨d, hi ▸ hk, rfl⟩
  · exact ⟨d', hr ▸ h, rfl⟩

/-- A delivery's job is the one that was read when it came. -/
theorem job_of_fire {a : ReceiverAction} (h : Receiver.fire w a s = some s') {i : ℕ}
    (hd : s'.deliveries i = some d) :
    (∃ e, s.deliveries i = some e ∧ e.job = d.job) ∨ ∃ body, Receiver.read w body = some d.job := by
  cases a with
  | receive k body =>
    simp only [Receiver.fire] at h
    split at h
    · next job hk hread =>
      cases h
      simp only [update_apply] at hd
      split_ifs at hd
      · cases hd
        exact .inr ⟨body, hread⟩
      · exact .inl ⟨d, hd, rfl⟩
    · cases h
  | run k =>
    obtain ⟨e, hk, h⟩ := bind_eq_some_iff.1 h
    obtain ⟨r, phase, rfl, hr⟩ := runDelivery_eq h
    exact .inl (job_of_put hr hk hd)
  | act k snapshot answers =>
    simp only [Receiver.fire] at h
    split at h
    · next e hk =>
      split at h
      · cases h
        exact .inl (job_of_put rfl hk hd)
      · cases h
    · cases h
  | drop k =>
    cases h
    simp only [update_apply] at hd
    split_ifs at hd
    exact .inl ⟨d, hd, rfl⟩
  | record outcome =>
    cases h
    exact .inl ⟨d, hd, rfl⟩
  | tick now =>
    simp only [Receiver.fire] at h
    split_ifs at h
    cases h
    exact .inl ⟨d, hd, rfl⟩

end Jobs

/-! ### The invariant -/

namespace Floor

variable {w : Workspace} {s s' : Floor} {a : ReceiverAction} {i : ℕ} {outcome : Outcome}

/-- An errand is on its course, and the order that it posts next may be placed. -/
structure Sound (w : Workspace) (held : List Entry) (x : Errand) : Prop where
  capital : upper x.job.symbol.toList = x.job.symbol.toList
  course : Course w x.job x.rest
  ready : ∀ o, awaited x.rest = some o → Admits w held o

/-- What holds between any two calls. -/
structure Inv (w : Workspace) (s : Floor) : Prop where
  capital : ∀ i d, s.receiver.deliveries i = some d → upper d.job.symbol.toList = d.job.symbol.toList
  sound : ∀ x ∈ s.errands.rows, Sound w s.held x
  admitted : ∀ x ∈ s.accepted, Admits w x.2 x.1

theorem inv_opening (held : List Entry) : (opening held).Inv w where
  capital := fun _ d hd => absurd hd.symm (some_ne_none d)
  sound := forall_mem_nil _
  admitted := forall_mem_nil _

/-- A step at the door keeps the errands, or drops one. -/
theorem door_cases (h : fire w (.door a) s = some s') :
    ∃ r errands, Receiver.fire w a s.receiver = some r ∧ s' = { s with receiver := r, errands := errands } ∧
      ∀ x ∈ errands.rows, x ∈ s.errands.rows := by
  cases a with
  | act k snapshot answers => cases h
  | drop k =>
    simp only [fire, map_eq_some_iff] at h
    obtain ⟨r, hr, rfl⟩ := h
    exact ⟨r, s.errands.delete [k], hr, rfl, fun x hx => mem_of_mem_filter hx⟩
  | receive k body | run k | record outcome | tick now =>
    simp only [fire, map_eq_some_iff] at h
    obtain ⟨r, hr, rfl⟩ := h
    exact ⟨r, s.errands, hr, rfl, fun x hx => hx⟩

theorem Inv.door (h : s.Inv w) (hf : fire w (.door a) s = some s') : s'.Inv w := by
  obtain ⟨r, errands, hr, rfl, hsub⟩ := door_cases hf
  refine ⟨fun i d hd => ?_, fun x hx => h.sound x (hsub x hx), h.admitted⟩
  rcases job_of_fire hr hd with ⟨e, he, hjob⟩ | ⟨body, hread⟩
  · exact hjob ▸ h.capital i e he
  · exact upper_read hread

theorem Inv.start {snapshot : Option VTSnapshot} (h : s.Inv w) (hf : fire w (.start i snapshot) s = some s') :
    s'.Inv w := by
  simp only [fire] at hf
  split at hf
  · next job _ _ hd _ =>
    cases hf
    refine ⟨h.capital, fun x hx => ?_, h.admitted⟩
    rcases Table.mem_of_mem_insert hx with rfl | hx
    · obtain ⟨hcourse, hnone⟩ := @course_calls w job s.receiver snapshot
      refine ⟨h.capital i _ hd, hcourse, fun o ho => ?_⟩
      rw [hnone] at ho
      exact absurd ho.symm (some_ne_none o)
    · exact h.sound x hx
  · cases hf

theorem Inv.judge (h : s.Inv w) (hf : fire w (.judge i) s = some s') : s'.Inv w := by
  simp only [fire] at hf
  split at hf
  · next job receivedAt id hd _ =>
    cases hf
    refine ⟨fun j e he => ?_, fun x hx => h.sound x (mem_of_mem_filter hx), h.admitted⟩
    obtain ⟨e', he', hjob⟩ := job_of_put rfl hd he
    exact hjob ▸ h.capital j e' he'
  · cases hf

/-- What is held gets less, or an order at rest becomes a position. -/
theorem Inv.fewer {held : List Entry} (h : s.Inv w) (hlen : held.length ≤ s.held.length)
    (hmem : ∀ e' ∈ held, ∃ e ∈ s.held, e.symbol = e'.symbol ∧ e.side = e'.side) :
      { s with held := held }.Inv w where
  capital := h.capital
  sound x hx :=
    have hx := h.sound x hx
    ⟨hx.capital, hx.course, fun o ho => (hx.ready o ho).of_subset hlen hmem⟩
  admitted := h.admitted

theorem call_cases (hf : fire w (.call i outcome) s = some s') :
    ∃ id d x q k, s.errands.find i = some x ∧ x.rest = .call q k ∧
      s' = ((s.effect q outcome).log id d q outcome).goOn i (k outcome) := by
  simp only [fire] at hf
  split at hf
  · next hx => exact ⟨_, _, _, _, _, hx, rfl, (some.inj hf).symm⟩
  · cases hf

/-- A call adds to the book only when it is an order that is accepted. -/
theorem effect_cases (q : Request) (outcome : Outcome) (s : Floor) :
    (∃ o, q = .order o ∧ outcome.accepted = true ∧ s.effect q outcome = s.land o) ∨ s.effect q outcome = s := by
  unfold effect
  split
  · next o =>
    split_ifs with h
    · exact .inl ⟨o, rfl, h, rfl⟩
    · exact .inr rfl
  · exact .inr rfl

theorem mem_goOn {rest : Calls Request Outcome Verdict} {x y : Errand} (hx : s.errands.find i = some x)
    (hy : y ∈ (s.goOn i rest).errands.rows) : y = { x with rest := rest } ∨ y ∈ s.errands.rows ∧ y.delivery ≠ i :=
  (Table.mem_modify (f := fun x => { x with rest := rest }) (p := fun _ => rfl) hx).1 hy

theorem Inv.call (h : s.Inv w) (hfresh : Fresh w (.call i outcome) s)
    (halone : Alone (.call i outcome) s) (hf : fire w (.call i outcome) s = some s') : s'.Inv w := by
  obtain ⟨id, d, ⟨i', job, rest⟩, q, k, hx, hrest, rfl⟩ := call_cases hf
  obtain rfl : rest = .call q k := hrest
  obtain ⟨hmem, hkey⟩ := Table.find_eq_some hx
  obtain rfl : i' = i := hkey
  have hsound := h.sound _ hmem
  obtain ⟨hcourse, hnext⟩ := hsound.course.step outcome
  simp only [Fresh, Alone, hx] at hfresh halone
  rcases effect_cases q outcome s with ⟨o, rfl, haccepted, heffect⟩ | heffect
  · -- the order lands; nobody else is about to post one
    rw [heffect]
    refine ⟨h.capital, fun y hy => ?_, forall_mem_cons.2 ⟨?_, h.admitted⟩⟩
    · rcases mem_goOn (s := s.land o) hx hy with rfl | ⟨hy, hne⟩
      · exact ⟨hsound.capital, hcourse, fun o' ho' => by cases (hnext o' ho').1⟩
      · have hnone := halone haccepted y hy hne
        have hy := h.sound y hy
        exact ⟨hy.capital, hy.course, fun o' ho' => absurd (hnone.symm.trans ho') (some_ne_none o').symm⟩
    · exact hsound.ready o rfl
  · rw [heffect]
    refine ⟨h.capital, fun y hy => ?_, h.admitted⟩
    rcases mem_goOn (s := s) hx hy with rfl | ⟨hy, -⟩
    · refine ⟨hsound.capital, hcourse, fun o' ho' => ?_⟩
      obtain ⟨rfl, signal, reply, hsignal, rfl, hreply, hpassed⟩ := hnext o' ho'
      obtain ⟨hcurrent, hlegs⟩ := hfresh reply (by rw [hreply]; rfl) (by rw [hsignal]; rfl)
      exact admits_of_passed hsignal hsound.capital hcurrent hlegs hpassed
    · exact h.sound y hy

theorem Inv.step {a : FloorAction} (h : s.Inv w) (hfresh : Fresh w a s) (halone : Alone a s)
    (hf : fire w a s = some s') : s'.Inv w := by
  cases a with
  | door a => exact h.door hf
  | start i snapshot => exact h.start hf
  | call i outcome => exact h.call hfresh halone hf
  | judge i => exact h.judge hf
  | gone id =>
    cases hf
    exact h.fewer (length_filter_le _ _) fun e he => ⟨e, mem_of_mem_filter he, rfl, rfl⟩
  | fill id =>
    cases hf
    refine h.fewer (length_map _).le fun e' he' => ?_
    obtain ⟨e, he, rfl⟩ := mem_map.1 he'
    refine ⟨e, he, ?_⟩
    split_ifs <;> exact ⟨rfl, rfl⟩

/-- **Limits**: while every read finds a current book and no order is accepted between another alert's read and its
order, every order that is accepted found room and nothing of the other side. -/
theorem limits_hold (w : Workspace) {held : List Entry} {s : Floor}
    (hrun : Machine.Run (fire w) (fun a s => Fresh w a s ∧ Alone a s) (opening held) s) :
    ∀ x ∈ s.accepted, x.2.length < w.maxOpen ∧ ∀ e ∈ x.2, sameSymbol e.symbol x.1.symbol = true →
      e.side = x.1.side := by
  have hinv : s.Inv w := hrun.invariant (inv_opening held) fun a t u hok ht hf => ht.step hok.1 hok.2 hf
  exact fun x hx => ⟨(hinv.admitted x hx).room, (hinv.admitted x hx).sides⟩

/-! ### Two alerts that pass the same check -/

instance (a : FloorAction) (s : Floor) : Decidable (Fresh w a s) := by
  unfold Fresh
  split
  · split <;> infer_instance
  · infer_instance

instance (a : FloorAction) (s : Floor) : Decidable (Alone a s) := by
  unfold Alone
  split
  · split <;> infer_instance
  · infer_instance

/-- A workspace with this many positions at a time. -/
def floorWorkspace (maxOpen : ℕ) : Workspace := ⟨Receiver.samplePython, 1, some (.finite 2), 5, maxOpen, [], []⟩

/-- An alert at the market. -/
def marketAlert (action : String) (lots : ℤ) : Json :=
  .dict [("action", .str action), ("symbol", .str "XAUUSD"), ("id", .str "t"), ("lots", .int lots)]

/-- A delivery up to its calls. -/
def arrival (i : ℕ) (action : String) (lots : ℤ) : List FloorAction :=
  [.door (.receive i (marketAlert action lots)), .door (.run i), .door (.run i), .door (.run i), .door (.run i),
    .door (.run i), .start i none]

/-- A call that succeeds; the book is the one given. -/
def answered (i : ℕ) (book : Book) : FloorAction := .call i (.answered 200 ⟨book, ""⟩ true)

/-- The book of a master with one long position, and with two. -/
def oneLong : Book := ⟨[⟨7, some "XAUUSD", .buy⟩], [], List.nodup_singleton _, List.nodup_nil⟩

theorem nodup_pair : [7, 8].Nodup := by decide

def twoLong : Book := ⟨[⟨7, some "XAUUSD", .buy⟩, ⟨8, some "XAUUSD", .buy⟩], [], nodup_pair, List.nodup_nil⟩

/-- Three alerts side by side, where two positions are allowed: the second reads a book that shows the order of the
first, and its order is accepted; the third one reads both and is refused. -/
theorem limits_hold_three : ∃ s : Floor,
    s.accepted.map (fun x => (x.1.side, x.2.map Entry.side)) = [(.buy, [.buy]), (.buy, [])] ∧ s.errands.rows = [] ∧
    ∀ x ∈ s.accepted, x.2.length < (floorWorkspace 2).maxOpen ∧
      ∀ e ∈ x.2, sameSymbol e.symbol x.1.symbol = true → e.side = x.1.side := by
  obtain ⟨s, hrun, hacc, hdone⟩ : ∃ s : Floor, Machine.Run (fire (floorWorkspace 2))
      (fun a s => Fresh (floorWorkspace 2) a s ∧ Alone a s) (opening []) s ∧
      s.accepted.map (fun x => (x.1.side, x.2.map Entry.side)) = [(.buy, [.buy]), (.buy, [])] ∧
        s.errands.rows = [] :=
    Machine.exists_run (arrival 0 "buy" 1 ++ arrival 1 "buy" 2 ++ arrival 2 "sell" 1 ++
      [answered 0 .empty, answered 0 .empty, answered 1 oneLong, answered 1 .empty, answered 2 twoLong, .judge 0,
        .judge 1, .judge 2]) (opening []) (by decide +kernel)
  exact ⟨s, hacc, hdone, limits_hold (floorWorkspace 2) hrun⟩

/-- **Check and order apart**: a buy and a sell both read the empty book of a master that holds nothing.  Both
orders are accepted, where one position is allowed. -/
theorem limits_broken : ∃ s : Floor,
    Machine.Run (fire (floorWorkspace 1)) (fun a s => Fresh (floorWorkspace 1) a s) (opening []) s ∧
    ∃ x ∈ s.accepted, (floorWorkspace 1).maxOpen ≤ x.2.length ∧
      ∃ e ∈ x.2, e.symbol = x.1.symbol ∧ e.side = x.1.side.opposite :=
  Machine.exists_run (arrival 0 "buy" 1 ++ arrival 1 "sell" 1 ++
      [answered 0 .empty, answered 1 .empty, answered 0 .empty, answered 1 .empty]) (opening [])
    (by decide +kernel)

end Floor

end Webhook
