import CopyTrading.Copier.Models

/-!
# Copier.Routing — whose account it is (`engine/routing.py`, `accounts` of `db/repo.py`)

The routing is read off the rows of `accounts`: the org of an account, the master of an org, and the
org's slaves, of which those take part that are enabled and not paused.
-/

namespace Copier

inductive AccountRole where
  | master | slave | ignored
  deriving DecidableEq, Repr

inductive Platform where
  | ctrader | mt5
  deriving DecidableEq, Repr

/-- `status` of a row of `accounts`. -/
inductive AccountStatus where
  | ok | paused | degraded
  deriving DecidableEq, Repr

/-- What is read of a row of `accounts`. -/
structure AccountRow where
  accountId : ℕ
  orgId : ℕ
  role : AccountRole
  enabled : Bool
  multiplier : { q : ℚ // 0 < q }
  status : AccountStatus
  platform : Platform

/-- `OrgRouting`. -/
structure OrgRouting where
  orgByAccount : ℕ → Option ℕ
  masterByOrg : ℕ → Option ℕ
  slavesByOrg : ℕ → List SlaveConfig

/-- `mt5_symbols_by_canonical`: an alias that names a symbol of the broker comes first. -/
def mt5SymbolsByCanonical (symbols : String → Option SymbolInfo) (aliases : String → Option String)
    (name : String) : Option SymbolInfo :=
  ((aliases name).bind symbols).or (symbols name)

/-- The symbols of a slave under the names that master events carry. -/
def slaveSymbols (symbolLoader : ℕ → String → Option SymbolInfo)
    (aliasLoader : ℕ → String → Option String) (a : AccountRow) : String → Option SymbolInfo :=
  match a.platform with
  | .mt5 => mt5SymbolsByCanonical (symbolLoader a.accountId) (aliasLoader a.accountId)
  | .ctrader => symbolLoader a.accountId

/-- Whether a row takes part in copying. -/
def AccountRow.copies (a : AccountRow) : Bool := a.enabled && a.status ≠ .paused

/-- The `SlaveConfig` of a row. -/
def slaveConfig (symbolLoader : ℕ → String → Option SymbolInfo)
    (aliasLoader : ℕ → String → Option String) (a : AccountRow) : SlaveConfig :=
  ⟨a.accountId, a.copies, a.multiplier, slaveSymbols symbolLoader aliasLoader a⟩

/-- The rows of an org's slaves. -/
def slaveRows (accounts : List AccountRow) (org : ℕ) : List AccountRow :=
  accounts.filter fun a => a.role = .slave && a.orgId = org

/-- `build_routing`: in the dictionaries a later row replaces an earlier one. -/
def buildRouting (accounts : List AccountRow) (symbolLoader : ℕ → String → Option SymbolInfo)
    (aliasLoader : ℕ → String → Option String) : OrgRouting where
  orgByAccount x := (accounts.reverse.find? fun a => a.accountId = x).map AccountRow.orgId
  masterByOrg org :=
    (accounts.reverse.find? fun a => a.role = .master && a.orgId = org).map AccountRow.accountId
  slavesByOrg org := (slaveRows accounts org).map (slaveConfig symbolLoader aliasLoader)

/-! ### The account status (`set_account_status`, `clear_degraded`) -/

/-- `status` of every account. -/
abbrev Statuses : Type := ℕ → AccountStatus

/-- `set_account_status`. -/
def setAccountStatus (statuses : Statuses) (x : ℕ) (status : AccountStatus) : Statuses :=
  Function.update statuses x status

/-- `… WHERE status = 'degraded'`. -/
def clearDegraded (statuses : Statuses) (x : ℕ) : Statuses :=
  if statuses x = .degraded then Function.update statuses x .ok else statuses

variable {statuses : Statuses} {x y : ℕ}

/-- Clearing leaves a paused account alone. -/
theorem clearDegraded_paused (h : statuses y = .paused) : clearDegraded statuses x y = .paused := by
  unfold clearDegraded
  split_ifs with hx
  · rw [Function.update_of_ne, h]
    rintro rfl
    simp [h] at hx
  · exact h

theorem setAccountStatus_paused (h : statuses y = .paused) {status : AccountStatus} (hne : x ≠ y) :
    setAccountStatus statuses x status y = .paused := by
  rw [setAccountStatus, Function.update_of_ne hne.symm, h]

end Copier
