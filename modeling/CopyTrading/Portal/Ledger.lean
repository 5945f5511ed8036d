import CopyTrading.Lib.Table

/-!
# Portal.Ledger — the ledger rules of the client portal (`portal_ledger.py`)

What an amount may look like, how a wallet's balance, holds and available figure are computed, how a
fee is taken, which status changes are legal and which transfer pairs exist.  A `NUMERIC(18,2)`
column is its number of cents, an integer; a `Decimal` that need not be whole cents is a rational.
-/

namespace Portal

open Function

variable {q : ℚ}

/-- A cents column read as a `Decimal`. -/
def toDecimal (c : ℤ) : ℚ := (c : ℚ) / 100

/-- A positive amount of cents: what `parse_amount` accepts and the `amount > 0` checks keep. -/
abbrev Amount : Type := { c : ℤ // 0 < c }

/-- `WALLETS`, as a type. -/
inductive Wallet where
  | main | credit | pamm | social
  deriving DecidableEq, Repr

/-- `WALLETS`. -/
def wallets : List Wallet := [.main, .credit, .pamm, .social]

/-- A scalar of a request body, as `parse_amount` tells them apart: `blank` is the empty string,
`nan` a float NaN, `infinite` text that reads as a Decimal that is not finite, `junk` anything that
is not a number. -/
inductive Raw where
  | null | blank | bool (b : Bool) | nan | infinite | num (q : ℚ) | junk (repr : String)
  deriving DecidableEq

/-- `MAX_INTEGER_DIGITS`. -/
def maxIntegerDigits : ℕ := 12

/-! ### Cents -/

/-- Toward zero to the cent (`ROUND_DOWN`). -/
def floorCents (q : ℚ) : ℤ := if 0 ≤ q then ⌊q * 100⌋ else ⌈q * 100⌉

/-- Half-up to the cent (`ROUND_HALF_UP`: a tie moves away from zero). -/
def roundCents (q : ℚ) : ℤ := if 0 ≤ q then ⌊q * 100 + 1 / 2⌋ else ⌈q * 100 - 1 / 2⌉

/-- `fee_for`: `fee_pct` per cent of the amount, half-up to the cent. -/
def feeFor (amount : ℤ) (feePct : ℚ) : ℤ := roundCents (toDecimal amount * feePct / 100)

/-- `deposit_bonus`: `pct` per cent of the confirmed amount, half-up, never above `cap`. -/
def depositBonus (amount : ℤ) (pct : ℚ) (cap : Option ℤ) : ℤ :=
  let bonus := roundCents (toDecimal amount * pct / 100)
  match cap with
  | none => bonus
  | some c => min bonus c

/-- `f"{x:.2f}"` of a cents value. -/
def fmt (c : ℤ) : String :=
  let a := c.natAbs
  let frac := toString (a % 100)
  (if c < 0 then "-" else "") ++ toString (a / 100) ++ "." ++
    (if a % 100 < 10 then "0" ++ frac else frac)

@[simp] theorem floorCents_toDecimal (c : ℤ) : floorCents (toDecimal c) = c := by
  have h : toDecimal c * 100 = (c : ℚ) := by simp [toDecimal]
  unfold floorCents
  split_ifs <;> simp [h]

theorem floorCents_mono {r : ℚ} (h : q ≤ r) : floorCents q ≤ floorCents r := by
  unfold floorCents
  split_ifs with hq hr hr
  · exact Int.floor_mono (by linarith)
  · exact absurd (hq.trans h) hr
  · have h1 : ⌈q * 100⌉ ≤ 0 := Int.ceil_le.2 (by push_cast; linarith [not_le.1 hq])
    have h2 : 0 ≤ ⌊r * 100⌋ := Int.floor_nonneg.2 (by linarith)
    exact h1.trans h2
  · exact Int.ceil_mono (by linarith)

/-- Rounding half-up never falls below rounding toward zero, on figures that are not negative. -/
theorem floorCents_le_roundCents (h : 0 ≤ q) : floorCents q ≤ roundCents q := by
  rw [floorCents, roundCents, if_pos h, if_pos h]
  exact Int.floor_mono (by linarith)

theorem roundCents_nonneg (h : 0 ≤ q) : 0 ≤ roundCents q := by
  rw [roundCents, if_pos h]
  exact Int.floor_nonneg.2 (by linarith)

theorem depositBonus_nonneg {amount : ℤ} {pct : ℚ} {cap : Option ℤ} (ha : 0 ≤ amount)
    (hp : 0 ≤ pct) (hc : ∀ c ∈ cap, 0 ≤ c) : 0 ≤ depositBonus amount pct cap := by
  have h0 : (0 : ℚ) ≤ (amount : ℚ) := by exact_mod_cast ha
  have hb : 0 ≤ roundCents (toDecimal amount * pct / 100) :=
    roundCents_nonneg (by unfold toDecimal; positivity)
  cases cap with
  | none => exact hb
  | some c => exact le_min hb (hc c rfl)

/-! ### Amounts -/

/-- `parse_amount`: a positive amount with at most two decimals. -/
def parseAmount (raw : Raw) (field : String) : Except String Amount :=
  match raw with
  | .null | .blank | .bool _ => .error (field ++ " is required, e.g. 250.00")
  | .nan => .error (field ++ " must be a number")
  | .junk r => .error (field ++ " must be a number, got " ++ r)
  | .infinite => .error (field ++ " must be greater than 0")
  | .num q =>
    if q ≤ 0 then .error (field ++ " must be greater than 0")
    -- `quantize` raises once the result has more than the context's 28 digits
    else if (10 : ℚ) ^ 26 ≤ q then .error (field ++ " is too large")
    else if (q * 100).den ≠ 1 then .error (field ++ " may have at most two decimals")
    else if (10 : ℚ) ^ maxIntegerDigits ≤ q then .error (field ++ " is too large")
    else if h : 0 < (q * 100).num then .ok ⟨(q * 100).num, h⟩
    else .error (field ++ " must be greater than 0")

/-! ### Figures -/

/-- `balance`: the running sums of `(wallet, amount)` pairs. -/
def balance (entries : List (Wallet × ℤ)) : Wallet → ℤ :=
  entries.foldl (fun out e => Function.update out e.1 (out e.1 + e.2)) (fun _ => 0)

/-- `holds`: open withdrawals hold on `main`, open transfers on their source wallet. -/
def holds (openWithdrawals : List ℤ) (openTransfers : List (Wallet × ℤ)) : Wallet → ℤ :=
  let out := openWithdrawals.foldl
    (fun out a => Function.update out Wallet.main (out Wallet.main + a)) (fun _ => 0)
  openTransfers.foldl (fun out e => Function.update out e.1 (out e.1 + e.2)) out

/-- `available`: floored, and allowed to be negative. -/
def available (balance hold : ℤ) : ℤ := floorCents (toDecimal (balance - hold))

/-- The running sums of a list of `(wallet, amount)` pairs, started from `out`. -/
theorem foldl_pairs (l : List (Wallet × ℤ)) (out : Wallet → ℤ) (w : Wallet) :
    l.foldl (fun out e => Function.update out e.1 (out e.1 + e.2)) out w =
      out w + (l.map fun e => if e.1 = w then e.2 else 0).sum := by
  induction l generalizing out with
  | nil => simp
  | cons e l ih =>
    rw [List.foldl_cons, ih, List.map_cons, List.sum_cons]
    by_cases h : e.1 = w
    · subst h
      rw [update_self, if_pos rfl]
      ring
    · rw [update_of_ne (Ne.symm h), if_neg h]
      ring

theorem balance_eq (l : List (Wallet × ℤ)) (w : Wallet) :
    balance l w = (l.map fun e => if e.1 = w then e.2 else 0).sum := by
  rw [balance, foldl_pairs, zero_add]

theorem holds_eq (ws : List ℤ) (ts : List (Wallet × ℤ)) (w : Wallet) :
    holds ws ts w = (if w = .main then ws.sum else 0) +
      (ts.map fun e => if e.1 = w then e.2 else 0).sum := by
  have hw : ws.foldl (fun out a => update out Wallet.main (out Wallet.main + a))
      (fun _ => (0 : ℤ)) w = if w = .main then ws.sum else 0 := by
    have := foldl_pairs (ws.map fun a => (Wallet.main, a)) (fun _ => 0) w
    rw [List.foldl_map] at this
    rw [this, List.map_map, zero_add]
    by_cases h : w = .main
    · subst h
      simp [comp_def]
    · have h' : Wallet.main ≠ w := Ne.symm h
      simp [comp_def, h, h']
  rw [holds, foldl_pairs, hw]

@[simp] theorem available_eq (b h : ℤ) : available b h = b - h := floorCents_toDecimal _

/-! ### Transitions -/

/-- `status` of a deposit. -/
inductive DepositStatus where
  | pending | confirmed | rejected | cancelled
  deriving DecidableEq, Repr

/-- `status` of a withdrawal. -/
inductive WithdrawalStatus where
  | requested | approved | paid | rejected | cancelled
  deriving DecidableEq, Repr

/-- `status` of a transfer. -/
inductive TransferStatus where
  | requested | approved | done | rejected | cancelled
  deriving DecidableEq, Repr

/-- `DEPOSIT_TRANSITIONS`. -/
def DepositStatus.next : DepositStatus → List DepositStatus
  | .pending => [.confirmed, .rejected, .cancelled]
  | _ => []

/-- `WITHDRAWAL_TRANSITIONS`. -/
def WithdrawalStatus.next : WithdrawalStatus → List WithdrawalStatus
  | .requested => [.approved, .rejected, .cancelled]
  | .approved => [.paid, .rejected]
  | _ => []

/-- `TRANSFER_TRANSITIONS`. -/
def TransferStatus.next : TransferStatus → List TransferStatus
  | .requested => [.approved, .done, .rejected, .cancelled]
  | .approved => [.done, .rejected]
  | _ => []

/-- `can_transition("deposits", ·, ·)`. -/
def DepositStatus.canTransition (current new : DepositStatus) : Bool := new ∈ current.next

/-- `can_transition("withdrawals", ·, ·)`. -/
def WithdrawalStatus.canTransition (current new : WithdrawalStatus) : Bool := new ∈ current.next

/-- `can_transition("transfers", ·, ·)`. -/
def TransferStatus.canTransition (current new : TransferStatus) : Bool := new ∈ current.next

def DepositStatus.text : DepositStatus → String
  | .pending => "pending" | .confirmed => "confirmed" | .rejected => "rejected"
  | .cancelled => "cancelled"

def WithdrawalStatus.text : WithdrawalStatus → String
  | .requested => "requested" | .approved => "approved" | .paid => "paid"
  | .rejected => "rejected" | .cancelled => "cancelled"

def TransferStatus.text : TransferStatus → String
  | .requested => "requested" | .approved => "approved" | .done => "done"
  | .rejected => "rejected" | .cancelled => "cancelled"

/-- `OPEN_WITHDRAWAL_STATUSES`. -/
def WithdrawalStatus.isOpen : WithdrawalStatus → Bool
  | .requested | .approved => true
  | _ => false

/-- `OPEN_TRANSFER_STATUSES`. -/
def TransferStatus.isOpen : TransferStatus → Bool
  | .requested | .approved => true
  | _ => false

/-! ### Transfer pairs -/

/-- An end of a transfer as the body names it; `other` is whatever `_end` refuses. -/
inductive MoneyRef where
  | wallet (w : Wallet) | account (id : ℕ) | other
  deriving DecidableEq

/-- `_end`: a wallet, or `"account"`. -/
inductive EndKind where
  | wallet (w : Wallet) | account
  deriving DecidableEq

/-- `TRANSFER_PAIRS`. -/
def transferPairs : List (EndKind × EndKind) :=
  [(.wallet .main, .account), (.account, .wallet .main), (.wallet .pamm, .wallet .main),
    (.wallet .social, .wallet .main), (.wallet .credit, .account)]

def notAllowed : String := "that transfer is not allowed"

/-- `_end`. -/
def MoneyRef.end? : MoneyRef → Except String EndKind
  | .wallet w => .ok (.wallet w)
  | .account _ => .ok .account
  | .other => .error notAllowed

/-- `transfer_pair`. -/
def transferPair (source target : MoneyRef) : Except String (EndKind × EndKind) := do
  let s ← source.end?
  let t ← target.end?
  if (s, t) ∈ transferPairs then .ok (s, t) else .error notAllowed

end Portal
