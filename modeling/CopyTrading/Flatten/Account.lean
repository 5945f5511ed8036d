import CopyTrading.Lib.Calls

/-!
# Flatten.Account — the kill switch on a cTrader account

`_flatten_account` asks the broker for the book, sends a close for each position and a cancel for each order,
waits, and asks again, for `FLATTEN_ROUNDS` rounds at most.  The broker's answers are arbitrary: between two of
them positions and orders come and go, and no answer to a close or a cancel is looked at.
-/

namespace Copier.Flatten

variable {seconds : ℚ} {context : Except String Unit}

/-- `FLATTEN_ROUNDS`. -/
def flattenRounds : ℕ := 3

/-- `FLATTEN_SETTLE_S`. -/
def flattenSettle : ℚ := 3 / 5

/-- What the kill switch reports of an account; `remaining` is `none` where nothing is known. -/
structure Summary where
  accountId : ℕ
  positionsClosed : ℕ
  ordersCancelled : ℕ
  positionsRemaining : Option (List ℕ)
  ordersRemaining : Option (List ℕ)
  rounds : ℕ
  error : Option String
  deriving DecidableEq

/-- `len(first) - len(first & set(open))`. -/
def goneCount (first last : List ℕ) : ℕ := first.toFinset.card - (first.toFinset ∩ last.toFinset).card

theorem goneCount_eq (first last : List ℕ) : goneCount first last = (first.toFinset \ last.toFinset).card := by
  rw [goneCount, Finset.card_sdiff, Finset.inter_comm]

/-- The error of a summary. -/
def stillOpen (positions orders : List ℕ) (rounds : ℕ) : Option String :=
  if positions = [] ∧ orders = [] then none
  else some s!"{positions.length} position(s) and {orders.length} order(s) still open after {rounds} attempt(s)"

theorem stillOpen_eq_none {positions orders : List ℕ} {rounds : ℕ} :
    stillOpen positions orders rounds = none ↔ positions = [] ∧ orders = [] := by
  unfold stillOpen
  by_cases h : positions = [] ∧ orders = []
  · rw [if_pos h]
    exact iff_of_true rfl h
  · rw [if_neg h]
    exact iff_of_false (Option.some_ne_none _) h

/-- The measured summary: what there was first, what there is now. -/
def Summary.measured (account : ℕ) (firstPositions firstOrders positions orders : List ℕ) (rounds : ℕ) :
    Summary where
  accountId := account
  positionsClosed := goneCount firstPositions positions
  ordersCancelled := goneCount firstOrders orders
  positionsRemaining := some positions
  ordersRemaining := some orders
  rounds := rounds
  error := stillOpen positions orders rounds

/-- The summary of a flatten that failed. -/
def Summary.failed (account : ℕ) (message : String) : Summary := ⟨account, 0, 0, none, none, 0, some message⟩

/-! ### The broker -/

/-- `positionId` and `tradeData.volume`. -/
structure OpenPosition where
  positionId : ℕ
  volume : ℕ
  deriving DecidableEq

/-- A snapshot: positions and order ids. -/
structure Book where
  positions : List OpenPosition
  orders : List ℕ
  deriving DecidableEq

namespace Book

variable (b : Book)

def positionIds : List ℕ := b.positions.map OpenPosition.positionId

def isEmpty : Prop := b.positions = [] ∧ b.orders = []

instance : Decidable b.isEmpty := inferInstanceAs (Decidable (_ ∧ _))

end Book

/-- What a flatten does, one after the other. -/
inductive Request where
  | reconcile (account : ℕ)
  | closePosition (account position volume : ℕ)
  | cancelOrder (account order : ℕ)
  /-- `deferLater`. -/
  | settle (seconds : ℚ)
  /-- The event `kill_switch_flatten`. -/
  | logEvent (isError : Bool) (summary : Summary)

/-- How a request ends: a snapshot and the account it is for, an error of the broker, or an exception. -/
inductive Answer where
  | book (account : ℕ) (b : Book)
  | errorRes (errorCode : String)
  | raised (message : String)

/-- `_reconcile_book`, from the answer on. -/
def readBook (account : ℕ) : Answer → Except String Book
  | .book answeredFor b =>
    if answeredFor = account then .ok b
    else .error s!"reconcile for account {account} was answered with account {answeredFor}'s book"
  | .errorRes code => .error s!"reconcile failed: {code}"
  | .raised message => .error message

/-! ### The flatten -/

/-- A flatten, as calls and what it does with their answers. -/
abbrev Program (A : Type) : Type := Calls Request Answer A

/-- The first and the last book, and the rounds that were sent. -/
structure Measured where
  first : Book
  last : Book
  rounds : ℕ

/-- The requests of a round. -/
def closes (account : ℕ) (b : Book) : List Request :=
  (b.positions.map fun p => .closePosition account p.positionId p.volume) ++ b.orders.map (.cancelOrder account)

/-- The loop of `_flatten_account`, with the rounds that are left and the rounds that were sent. -/
def rounds (account : ℕ) : ℕ → ℕ → Option Book → Program (Except String Measured)
  | 0, sent, first =>
    (Calls.ask (.reconcile account) (readBook account)).attempt fun b => .done (.ok ⟨first.getD b, b, sent⟩)
  | left + 1, sent, first =>
    (Calls.ask (.reconcile account) (readBook account)).attempt fun b =>
      if b.isEmpty then .done (.ok ⟨first.getD b, b, sent⟩)
      else .tell (closes account b ++ [.settle (flattenSettle * 2 ^ sent)])
        (rounds account left (sent + 1) (some (first.getD b)))

def Measured.summary (account : ℕ) (m : Measured) : Summary :=
  .measured account m.first.positionIds m.first.orders m.last.positionIds m.last.orders m.rounds

/-- `_flatten_account`; `context` is what `_query_context` says. -/
def flattenAccount (account : ℕ) : Except String Unit → Program (Except String Summary)
  | .error e => .done (.error e)
  | .ok _ => (rounds account flattenRounds 0 none).attempt fun m =>
      .tell [.logEvent (m.summary account).error.isSome (m.summary account)] (.done (.ok (m.summary account)))

/-- `_flatten_account_safely`. -/
def flattenAccountSafely (account : ℕ) (context : Except String Unit) : Program Summary :=
  (flattenAccount account context).bind fun
    | .ok s => .done s
    | .error e => .done (.failed account e)

/-! ### What it was told -/

/-- The first and the last snapshot, the number of times the book was asked for, and why there was none. -/
structure Seen where
  first : Option Book
  last : Option Book
  asked : ℕ
  failure : Option String

namespace Seen

/-- Nothing has been asked. -/
def nothing : Seen := ⟨none, none, 0, none⟩

/-- What is seen of a call and its answer. -/
def note (account : ℕ) (h : Seen) (q : Request) (a : Answer) : Seen :=
  match q with
  | .reconcile _ =>
    match readBook account a with
    | .ok b => { h with first := some (h.first.getD b), last := some b, asked := h.asked + 1 }
    | .error e => { h with asked := h.asked + 1, failure := some e }
  | _ => h

/-- What the log of a flatten tells. -/
def of (account : ℕ) (log : List (Request × Answer)) : Seen := Calls.noted (note account) nothing log

/-- A close or a cancel names a position, with its volume, or an order of the last snapshot. -/
def Admits (account : ℕ) (h : Seen) : Request → Prop
  | .closePosition a p v => a = account ∧ ∃ b, h.last = some b ∧ ⟨p, v⟩ ∈ b.positions
  | .cancelOrder a o => a = account ∧ ∃ b, h.last = some b ∧ o ∈ b.orders
  | _ => True

end Seen

open Calls Seen

variable {account : ℕ}

theorem note_closes {b : Book} {q : Request} (hq : q ∈ closes account b ++ [.settle seconds]) (h : Seen)
    (a : Answer) : h.note account q a = h := by
  simp only [closes, List.mem_append, List.mem_map, List.mem_singleton] at hq
  rcases hq with (⟨p, -, rfl⟩ | ⟨o, -, rfl⟩) | rfl <;> rfl

variable {h : Seen}

theorem admits_closes {b : Book} (hb : h.last = some b) :
    ∀ q ∈ closes account b ++ [.settle seconds], h.Admits account q := by
  intro q hq
  simp only [closes, List.mem_append, List.mem_map, List.mem_singleton] at hq
  rcases hq with (⟨p, hp, rfl⟩ | ⟨o, ho, rfl⟩) | rfl
  · exact ⟨rfl, b, hb, hp⟩
  · exact ⟨rfl, b, hb, ho⟩
  · trivial

/-- What the loop ends with: two measured books, or a failure after a book that was not empty. -/
def Ended (h : Seen) : Except String Measured → Prop
  | .ok m => h.first = some m.first ∧ h.last = some m.last ∧ m.rounds ≤ flattenRounds ∧ h.asked ≤ flattenRounds + 1
  | .error e => h.failure = some e ∧ h.asked ≤ flattenRounds + 1 ∧ ∀ b, h.last = some b → ¬ b.isEmpty

/-- Asking for the book, after a book that was not empty. -/
theorem obeys_reconcile {post : Seen → Except String Measured → Prop} {k : Book → Program (Except String Measured)}
    (hok : ∀ b, Obeys (note account) (Admits account) post
      { h with first := some (h.first.getD b), last := some b, asked := h.asked + 1 } (k b))
    (herr : ∀ e, post { h with asked := h.asked + 1, failure := some e } (.error e)) :
    Obeys (note account) (Admits account) post h
      ((ask (.reconcile account) (readBook account)).attempt k) := by
  refine ⟨trivial, fun a => ?_⟩
  cases hr : readBook account a with
  | ok b =>
    have hnote : h.note account (.reconcile account) a =
        { h with first := some (h.first.getD b), last := some b, asked := h.asked + 1 } := by simp only [note, hr]
    dsimp only
    rw [hr, hnote]
    exact hok b
  | error e =>
    have hnote : h.note account (.reconcile account) a = { h with asked := h.asked + 1, failure := some e } := by
      simp only [note, hr]
    dsimp only
    rw [hr, hnote]
    exact herr e

theorem obeys_rounds (left : ℕ) : ∀ {sent : ℕ} {h : Seen}, sent + left = flattenRounds → h.asked = sent →
    (∀ b, h.last = some b → ¬ b.isEmpty) →
    Obeys (note account) (Admits account) Ended h (rounds account left sent h.first) := by
  induction left with
  | zero =>
    intro sent h hsent hasked hlast
    refine obeys_reconcile (fun b => ?_) fun e => ⟨rfl, by dsimp only; omega, hlast⟩
    exact ⟨rfl, rfl, by dsimp only; omega, by dsimp only; omega⟩
  | succ left ih =>
    intro sent h hsent hasked hlast
    refine obeys_reconcile (fun b => ?_) fun e => ⟨rfl, by dsimp only; omega, hlast⟩
    split_ifs with hb
    · exact ⟨rfl, rfl, by dsimp only; omega, by dsimp only; omega⟩
    · refine obeys_tell (admits_closes rfl) (fun q hq r => note_closes hq _ r) ?_
      refine ih (h := { h with first := some (h.first.getD b), last := some b, asked := h.asked + 1 })
        (by omega) (by dsimp only; omega) fun b' hb' => ?_
      exact Option.some.inj hb' ▸ hb

/-- The error of a measured summary. -/
theorem Measured.error_eq_none (m : Measured) : (m.summary account).error = none ↔ m.last.isEmpty := by
  unfold Measured.summary Summary.measured
  rw [stillOpen_eq_none, Book.positionIds, List.map_eq_nil_iff]
  rfl

/-- What a summary says of what was seen. -/
structure Truthful (account : ℕ) (context : Except String Unit) (h : Seen) (s : Summary) : Prop where
  error : s.error = none ↔ ∃ b, h.last = some b ∧ b.isEmpty
  measured : (∃ first last, h.first = some first ∧ h.last = some last ∧
      s.positionsClosed = (first.positionIds.toFinset \ last.positionIds.toFinset).card ∧
      s.ordersCancelled = (first.orders.toFinset \ last.orders.toFinset).card ∧
      s.positionsRemaining = some last.positionIds ∧ s.ordersRemaining = some last.orders) ∨
    ∃ e, (context = .error e ∨ h.failure = some e) ∧ s = .failed account e
  rounds : s.rounds ≤ flattenRounds
  asked : h.asked ≤ flattenRounds + 1

theorem Measured.truthful {m : Measured} (hm : Ended h (.ok m)) :
    Truthful account context h (m.summary account) := by
  obtain ⟨hfirst, hlast, hrounds, hasked⟩ := hm
  refine ⟨?_, .inl ⟨m.first, m.last, hfirst, hlast, goneCount_eq _ _, goneCount_eq _ _, rfl, rfl⟩, hrounds, hasked⟩
  rw [m.error_eq_none]
  refine ⟨fun hb => ⟨m.last, hlast, hb⟩, fun ⟨b, hb, hempty⟩ => ?_⟩
  exact Option.some.inj (hlast.symm.trans hb) ▸ hempty

theorem truthful_failed {e : String}
    (he : context = .error e ∨ h.failure = some e) (hasked : h.asked ≤ flattenRounds + 1)
    (hlast : ∀ b, h.last = some b → ¬ b.isEmpty) : Truthful account context h (.failed account e) := by
  refine ⟨iff_of_false (Option.some_ne_none e) ?_, .inr ⟨e, he, rfl⟩, Nat.zero_le _, hasked⟩
  rintro ⟨b, hb, hempty⟩
  exact hlast b hb hempty

/-- What the flatten returns or raises, as the caller reports it. -/
def Reported (account : ℕ) (context : Except String Unit) (h : Seen) : Except String Summary → Prop
  | .ok s => Truthful account context h s
  | .error e => Truthful account context h (.failed account e)

theorem obeys_flattenAccount (account : ℕ) (context : Except String Unit) :
    Obeys (note account) (Admits account) (Reported account context) nothing (flattenAccount account context) := by
  cases context with
  | error e => exact truthful_failed (.inl rfl) (Nat.zero_le _) nofun
  | ok _ =>
    refine (obeys_rounds (h := nothing) flattenRounds (Nat.zero_add _) rfl nofun).bind fun h r hr => ?_
    cases r with
    | error e => exact truthful_failed (.inr hr.1) hr.2.1 hr.2.2
    | ok m => exact ⟨trivial, fun _ => Measured.truthful hr⟩

theorem obeys_flattenAccountSafely (account : ℕ) (context : Except String Unit) :
    Obeys (note account) (Admits account) (Truthful account context) nothing
      (flattenAccountSafely account context) := by
  refine (obeys_flattenAccount account context).bind fun h r hr => ?_
  cases r with
  | error e | ok s => exact hr

/-- **The flatten tells the truth**, whatever the broker answers: there is no error if and only if the last
measured book was empty; the counts compare the first book with the last, and what remains is the last one, unless
a book could not be had at all; a close or a cancel names what is in the latest book; the rounds are bounded. -/
theorem flatten_truthful (account : ℕ) (context : Except String Unit) (s : ℕ → Answer) :
    Truthful account context (Seen.of account ((flattenAccountSafely account context).run s).1)
        ((flattenAccountSafely account context).run s).2 ∧
      ∀ before q a after, ((flattenAccountSafely account context).run s).1 = before ++ (q, a) :: after →
        (Seen.of account before).Admits account q :=
  ⟨(obeys_flattenAccountSafely account context).result s, fun _ _ _ _ h =>
    (obeys_flattenAccountSafely account context).call h⟩

end Copier.Flatten
