import CopyTrading.Lib.Machine

/-!
# Ctrader.Reauth — the accounts of a connection are authorised again

`CTraderClient` on one connection: the registry of accounts, the account-auth requests that were handed to the
connection and the pass that follows the app auth.  The pass goes through a snapshot of the registry and waits for
each answer; an account that was deauthorised meanwhile is missing when its turn comes, and the `KeyError` ends the
pass.
-/

namespace Ctrader

open List

/-- What becomes of an account-auth request: a positive response, one that cannot be decoded, an error code, or no
response (the timeout and every other failure of the send). -/
inductive AuthOutcome where
  | granted | undecodable | refused (errorCode : String) | failed

/-- `_reauth_all`: not begun, waiting for a request with the accounts behind it, or over. -/
inductive Pass where
  | idle | waiting (request : ℕ) (rest : List ℕ) | ended
  deriving DecidableEq

/-- `CTraderClient`.  `accounts` is `_accounts` with its tokens in the order of registration, `sent` the accounts
of the requests handed to this connection, `inFlight` those not answered yet. -/
structure Client where
  accounts : List (ℕ × String)
  authed : List ℕ
  authErrors : ℕ → Option String
  sent : List ℕ
  inFlight : List (ℕ × ℕ)
  next : ℕ
  pass : Pass
  ready : Bool

/-- What happens next to the client. -/
inductive Action where
  /-- The app auth is answered. -/
  | appAuthed
  | authorize (account : ℕ) (token : String)
  | deauthorize (account : ℕ)
  | answer (request : ℕ) (outcome : AuthOutcome)

namespace Client

variable {token : String}

/-- The registered accounts. -/
def ids (c : Client) : List ℕ := c.accounts.map Prod.fst

/-- `_accounts[account_id] = access_token`. -/
def register (c : Client) (a : ℕ) (token : String) : Client :=
  { c with accounts :=
      if a ∈ c.ids then c.accounts.map fun r => if r.1 = a then (a, token) else r else c.accounts ++ [(a, token)] }

/-- `_send_account_auth`; `none` is the `KeyError`. -/
def sendAccountAuth (c : Client) (a : ℕ) : Option Client :=
  if a ∈ c.ids then
    some { c with sent := c.sent ++ [a], inFlight := c.inFlight ++ [(c.next, a)], next := c.next + 1 }
  else none

/-- `authorize_account`. -/
def authorizeAccount (c : Client) (a : ℕ) (token : String) : Option Client :=
    (c.register a token).sendAccountAuth a

/-- `deauthorize_account`. -/
def deauthorizeAccount (c : Client) (a : ℕ) : Client :=
  { c with
    accounts := c.accounts.filter fun r => r.1 ≠ a
    authed := c.authed.filter (· ≠ a)
    authErrors := Function.update c.authErrors a none }

/-- `_on_account_auth_response`, or the errback. -/
def onAccountAuthResponse (c : Client) (a : ℕ) : AuthOutcome → Client
  | .granted => { c with authed := c.authed.insert a, authErrors := Function.update c.authErrors a none }
  | .refused code =>
    if code = "ALREADY_LOGGED_IN" then
      { c with authed := c.authed.insert a, authErrors := Function.update c.authErrors a none }
    else { c with authErrors := Function.update c.authErrors a (some code) }
  | .undecodable | .failed => c

/-- The pass is over, and `ready` fires. -/
def endPass (c : Client) : Client := { c with pass := .ended, ready := true }

/-- `_reauth_all` from an account on to its next wait. -/
def resume (c : Client) : List ℕ → Client
  | [] => c.endPass
  | a :: rest =>
    match c.sendAccountAuth a with
    | some c' => { c' with pass := .waiting c.next rest }
    | none => c.endPass

/-- The response of a request. -/
def answer (c : Client) (request : ℕ) (outcome : AuthOutcome) : Option Client :=
  (c.inFlight.find? fun r => r.1 = request).map fun r =>
    let c' := { c with inFlight := c.inFlight.filter fun r => r.1 ≠ request }.onAccountAuthResponse r.2 outcome
    match c'.pass with
    | .waiting q rest => if q = request then c'.resume rest else c'
    | _ => c'

def fire (a : Action) (c : Client) : Option Client :=
  match a with
  | .appAuthed => if c.pass = .idle then some (c.resume c.ids) else none
  | .authorize account token => c.authorizeAccount account token
  | .deauthorize account => some (c.deauthorizeAccount account)
  | .answer request outcome => c.answer request outcome

/-- A new connection: the registry is what it was, nothing has been sent. -/
def connected (accounts : List (ℕ × String)) (authErrors : ℕ → Option String) (ready : Bool) : Client :=
  ⟨accounts, [], authErrors, [], [], 0, .idle, ready⟩

/-! ### The pass -/

/-- The accounts that the pass has still to come to. -/
def ahead (c : Client) : List ℕ :=
  match c.pass with
  | .idle => c.ids
  | .waiting _ rest => rest
  | .ended => []

/-- Every registered account has been sent for, or the pass will come to it. -/
def Covered (c : Client) : Prop := ∀ a ∈ c.ids, a ∈ c.sent ∨ a ∈ c.ahead

/-- **The condition on a step**: the account whose turn comes with an answer is registered. -/
def Reached (a : Action) (c : Client) : Prop :=
  match a, c.pass with
  | .answer request _, .waiting q (next :: _) => q = request → next ∈ c.ids
  | _, _ => True

instance (a : Action) (c : Client) : Decidable (Reached a c) := by
  unfold Reached
  split <;> infer_instance

variable {c c' : Client} {a : ℕ}

theorem ids_register {b : ℕ} :
    (c.register b token).ids = if b ∈ c.ids then c.ids else c.ids ++ [b] := by
  unfold register
  by_cases hb : b ∈ c.ids
  · rw [if_pos hb, if_pos hb]
    unfold ids
    rw [map_map]
    refine map_congr_left fun r _ => ?_
    by_cases hr : r.1 = b
    · simp [hr]
    · simp [hr]
  · rw [if_neg hb, if_neg hb]
    simp [ids]

theorem mem_ids_register {b : ℕ} : a ∈ (c.register b token).ids ↔ a = b ∨ a ∈ c.ids := by
  rw [ids_register]
  split_ifs with hb
  · refine ⟨.inr, fun h => ?_⟩
    rcases h with rfl | h
    · exact hb
    · exact h
  · rw [mem_append, mem_singleton, or_comm]

/-- The pass goes on to an account that is registered, or has come to its end. -/
theorem Covered.resume {rest : List ℕ} (h : ∀ a ∈ c.ids, a ∈ c.sent ∨ a ∈ rest)
    (hnext : ∀ next rest', rest = next :: rest' → next ∈ c.ids) : (c.resume rest).Covered := by
  cases rest with
  | nil => exact fun a ha => h a ha
  | cons next rest =>
    have hsend : c.sendAccountAuth next = some { c with
        sent := c.sent ++ [next], inFlight := c.inFlight ++ [(c.next, next)], next := c.next + 1 } :=
      if_pos (hnext next rest rfl)
    simp only [Client.resume, hsend]
    intro a ha
    rcases h a ha with hs | hs
    · exact .inl (mem_append_left _ hs)
    · rcases mem_cons.1 hs with rfl | hs
      · exact .inl (mem_append_right _ (mem_singleton_self _))
      · exact .inr hs

/-- A step that leaves the pass alone: a pass that has not begun comes to every account of the registry. -/
theorem ahead_of_pass (hp : c'.pass = c.pass) (ha : a ∈ c'.ids) (h : a ∈ c.ahead) : a ∈ c'.ahead := by
  unfold ahead at h ⊢
  rw [hp]
  cases hc : c.pass with
  | idle => exact ha
  | waiting q rest | ended =>
    rw [hc] at h
    exact h

theorem Covered.authorizeAccount (h : c.Covered) (hf : c.authorizeAccount a token = some c') :
    c'.Covered := by
  unfold Client.authorizeAccount sendAccountAuth at hf
  rw [if_pos (mem_ids_register.2 (.inl rfl))] at hf
  cases hf
  intro b hb
  rcases mem_ids_register.1 hb with rfl | hold
  · exact .inl (mem_append_right _ (mem_singleton_self _))
  · rcases h b hold with hs | hs
    · exact .inl (mem_append_left _ hs)
    · exact .inr (ahead_of_pass (c := c) rfl hb hs)

theorem Covered.deauthorizeAccount (h : c.Covered) : (c.deauthorizeAccount a).Covered := by
  have hids : ∀ b, b ∈ (c.deauthorizeAccount a).ids → b ∈ c.ids := by
    intro b hb
    obtain ⟨r, hr, rfl⟩ := mem_map.1 hb
    exact mem_map.2 ⟨r, (mem_filter.1 hr).1, rfl⟩
  intro b hb
  rcases h b (hids b hb) with hs | hs
  · exact .inl hs
  · exact .inr (ahead_of_pass (c := c) rfl hb hs)

/-- A response changes neither the registry nor the pass. -/
theorem onAccountAuthResponse_frame (o : AuthOutcome) :
    (c.onAccountAuthResponse a o).ids = c.ids ∧ (c.onAccountAuthResponse a o).sent = c.sent ∧
      (c.onAccountAuthResponse a o).pass = c.pass := by
  cases o with
  | refused code =>
    unfold onAccountAuthResponse
    dsimp only
    split_ifs
    · exact ⟨rfl, rfl, rfl⟩
    · exact ⟨rfl, rfl, rfl⟩
  | _ => exact ⟨rfl, rfl, rfl⟩

theorem Covered.answer (h : c.Covered) {request : ℕ} {o : AuthOutcome} (hr : Reached (.answer request o) c)
    (hf : c.answer request o = some c') : c'.Covered := by
  obtain ⟨r, -, rfl⟩ := Option.map_eq_some_iff.1 hf
  dsimp only
  generalize hc₁ : { c with inFlight := c.inFlight.filter fun r => r.1 ≠ request } = c₁
  obtain ⟨hids, hsent, hpass⟩ := onAccountAuthResponse_frame (c := c₁) (a := r.2) o
  have hkeep : (c₁.onAccountAuthResponse r.2 o).Covered := by
    unfold Covered ahead
    rw [hids, hsent, hpass, ← hc₁]
    exact h
  split
  · next q rest hp =>
    split_ifs with hq
    · -- the pass was waiting for this answer
      have hp' : c.pass = .waiting q rest := by
        rw [hpass, ← hc₁] at hp
        exact hp
      refine Covered.resume (fun b hb => ?_) fun next rest' he => ?_
      · have hb' := hkeep b hb
        unfold ahead at hb'
        rwa [hp] at hb'
      · rw [hids, ← hc₁]
        unfold Reached at hr
        rw [hp', he] at hr
        exact hr hq
    · exact hkeep
  · exact hkeep

/-- **One step.** -/
theorem Covered.step {act : Action} (h : c.Covered) (hr : Reached act c) (hf : fire act c = some c') :
    c'.Covered := by
  cases act with
  | appAuthed =>
    simp only [fire] at hf
    split_ifs at hf with hidle
    cases hf
    refine Covered.resume (fun b hb => .inr hb) fun next rest he => ?_
    rw [he]
    exact mem_cons_self
  | authorize a token => exact h.authorizeAccount hf
  | deauthorize a => exact Option.some.inj hf ▸ h.deauthorizeAccount
  | answer request o => exact h.answer hr hf

/-- **The pass is complete**: if each account is registered when its turn comes, every account that is registered
when the pass is over has been sent for on this connection. -/
theorem reauth_complete {accounts : List (ℕ × String)} {errors : ℕ → Option String} {ready : Bool}
    (h : Machine.Run fire Reached (connected accounts errors ready) c) (hend : c.pass = .ended) {a : ℕ}
    (ha : a ∈ c.accounts.map Prod.fst) : a ∈ c.sent := by
  have hcov : c.Covered := h.invariant (fun a ha => .inr ha) fun _ _ _ hr hc hf => hc.step hr hf
  refine (hcov a ha).resolve_right ?_
  unfold ahead
  rw [hend]
  exact not_mem_nil

/-- A refusal, a timeout, a new account and one that goes after its turn. -/
theorem reauth_complete_troubled : ∃ c : Client,
    Machine.Run fire Reached (connected [(1, "t"), (2, "t"), (3, "t")] (fun _ => none) true) c ∧
    (c.pass = .ended ∧ c.accounts.map Prod.fst = [2, 3, 4]) ∧ ∀ a ∈ c.accounts.map Prod.fst, a ∈ c.sent := by
  refine Machine.exists_run_and [.appAuthed, .authorize 4 "t", .answer 0 (.refused "RET_ACCOUNT_DISABLED"),
    .deauthorize 1, .answer 2 .failed, .answer 1 .granted, .answer 3 .granted] _ ?_
  intro c hc hp a ha
  exact reauth_complete hc hp.1 ha

/-- **An abandoned account**: account 2 is deauthorised while the pass waits for account 1; the pass ends at its
turn, and nothing is sent for account 3. -/
theorem reauth_abandoned : ∃ c : Client,
    Machine.Run fire (fun _ _ => True) (connected [(1, "t"), (2, "t"), (3, "t")] (fun _ => none) true) c ∧
    c.pass = .ended ∧ 3 ∈ c.accounts.map Prod.fst ∧ 3 ∉ c.sent :=
  Machine.exists_run [.appAuthed, .deauthorize 2, .answer 0 .granted] _ (by decide)

end Client

end Ctrader
