import CopyTrading.Lib.RelyGuarantee
import CopyTrading.Portal.Actions

/-!
# Portal.Payouts — payout destinations and the withdrawals to them

The destination routes of `portal_investor.py` and `portal_admin.py`, beside the withdrawal routes.  A withdrawal
request reads that its destination is approved before it takes the ledger lock; the removal of a destination reads
that no open withdrawal uses it, and takes no lock.  Each relies on the other not to come between its check and its
write.
-/

namespace Portal

open List

/-! ### Destinations -/

/-- The statuses a destination may take next. -/
def DestinationStatus.next : DestinationStatus → List DestinationStatus
  | .pending => [.approved, .rejected, .removed]
  | .approved => [.removed]
  | _ => []

/-- `can_transition("payout_destinations", ·, ·)`. -/
def DestinationStatus.canTransition (current new : DestinationStatus) : Bool := new ∈ current.next

def DestinationStatus.text : DestinationStatus → String
  | .pending => "pending" | .approved => "approved" | .rejected => "rejected" | .removed => "removed"

/-- A row of `payout_destinations` is written. -/
def Config.setDestination (c : Config) (id : ℕ) (d : PayoutDestination) : Config :=
  { c with destination := Function.update c.destination id (some d) }

namespace Db

variable (db : Db)

/-- `WHERE id = … AND org_id = … AND status = …` on `payout_destinations`. -/
def destinationIs (id org : ℕ) (st : DestinationStatus) : Option PayoutDestination :=
  (db.config.destination id).filter fun d => d.who.org = org && d.status = st

/-- A withdrawal is still using the destination. -/
def inUse (id : ℕ) : Bool := db.withdrawals.rows.any fun w => w.destination = id && w.status.isOpen

/-- The destination is removed. -/
def removed (id : ℕ) : Bool := (db.config.destination id).any fun d => d.status = .removed

end Db

namespace Payout

variable {d : PayoutDestination}

/-! ### Routes -/

inductive DestinationKind where
  | bank | crypto
  deriving DecidableEq

/-- `DestinationBody`: `details` is what `clean_destination_details` answers, `proof` whether the proof file that
is named belongs to the investor. -/
structure DestinationBody where
  mpin : Option Answer
  kind : Option DestinationKind
  nickname : String
  details : Except String Unit
  proof : Option Bool
  limited : Bool

/-- `add_destination`. -/
def addDestination (ctx : Investor) (body : DestinationBody) : Prog :=
  requireMpin body.mpin <|
  match body.kind with
  | none => refuse 400 "kind must be bank or crypto"
  | some _ =>
    attempt (cleanText body.nickname "nickname" 64 false) fun _ =>
    attempt body.details fun _ =>
    if body.proof = some false then refuse 400 "proof file not found"
    else if body.limited then refuse 429 rateLimited
    else .auto (fun db id => ⟨[.config (db.config.setDestination id ⟨ctx, .pending⟩)], []⟩) fun _ _ => .done .ok

/-- `UPDATE payout_destinations SET status = … WHERE id = … AND org_id = … AND status = …`. -/
def updateDestination (org id : ℕ) (old new : DestinationStatus) : Prog :=
  .auto
    (fun db _ => match db.destinationIs id org old with
      | some d => ⟨[.config (db.config.setDestination id { d with status := new })], []⟩
      | none => ⟨[], []⟩)
    fun db _ => if (db.destinationIs id org old).isSome then .done .ok else refuse 409 decidedByOther

/-- `decide_destination` after the status text is read. -/
def destinationDecision (org id : ℕ) (new : DestinationStatus) (note : String) : Prog :=
  attempt (requireNoteOnReject (new = .rejected) note) fun _ =>
  .select fun db =>
    match db.config.destination id with
    | none => refuse 404 "Payout account not found"
    | some d =>
      if d.who.org ≠ org then refuse 404 "Payout account not found"
      else if ¬ d.status.canTransition new then refuse 409 ("payout account is already " ++ d.status.text)
      else updateDestination org id d.status new

/-- `decide_destination`. -/
def decideDestination (org id : ℕ) (body : Decision) : Prog :=
  match body.status with
  | .approved => destinationDecision org id .approved body.note
  | .rejected => destinationDecision org id .rejected body.note
  | _ => refuse 400 "status must be approved or rejected"

/-- `remove_destination`. -/
def removeDestination (ctx : Investor) (id : ℕ) : Prog :=
  .select fun db₁ =>
    match db₁.config.destination id with
    | none => refuse 404 "Payout account not found"
    | some d =>
      if d.who ≠ ctx then refuse 404 "Payout account not found"
      else if ¬ d.status.canTransition .removed then refuse 409 ("payout account is already " ++ d.status.text)
      else .select fun db₂ =>
        if db₂.inUse id then refuse 409 "a withdrawal is still using this payout account"
        else updateDestination ctx.org id d.status .removed

/-- The requests on withdrawals and destinations. -/
inductive Request where
  | requestWithdrawal (ctx : Investor) (body : WithdrawalRequest)
  | cancelWithdrawal (ctx : Investor) (id : ℕ)
  | decideWithdrawal (org id : ℕ) (body : Decision)
  | markWithdrawalPaid (org id : ℕ) (txid : String)
  | addDestination (ctx : Investor) (body : DestinationBody)
  | decideDestination (org id : ℕ) (body : Decision)
  | removeDestination (ctx : Investor) (id : ℕ)
  /-- Any edit of the other tables that are only read. -/
  | configure (c : Config)

section Model

variable (hashtext : String → ℤ)

def route : Request → Prog
  | .requestWithdrawal ctx body => Portal.requestWithdrawal hashtext ctx body
  | .cancelWithdrawal ctx id => Portal.cancelWithdrawal ctx id
  | .decideWithdrawal org id body => Portal.decideWithdrawal org id body
  | .markWithdrawalPaid org id txid => Portal.markWithdrawalPaid hashtext org id txid
  | .addDestination ctx body => addDestination ctx body
  | .decideDestination org id body => decideDestination org id body
  | .removeDestination ctx id => removeDestination ctx id
  | .configure c =>
    .auto (fun db _ => ⟨[.config { c with destination := db.config.destination }], []⟩) fun _ _ => .done .ok

end Model

abbrev Sys : Type := ReadCommitted.Sys Db Write Lock Answer Request

/-! ### The invariant -/

open ReadCommitted

/-- No open withdrawal is to a removed destination. -/
def NoneRemoved (db : Db) : Prop := ∀ w ∈ db.withdrawals.rows, w.status.isOpen = true →
    db.removed w.destination = false

instance (db : Db) : Decidable (NoneRemoved db) := by unfold NoneRemoved; infer_instance

def payoutSpec : Spec Db Lock where
  I _ db := NoneRemoved db
  Act _ _ _ db' := NoneRemoved db'
  mono _ h := h
  act_inv _ h := h

/-- A withdrawal request bears no removal of its destination, a removal no withdrawal to it. -/
def payoutRely : Request → Db → Db → Prop
  | .requestWithdrawal _ body => fun db db' =>
    db.removed body.destinationId = false → db'.removed body.destinationId = false
  | .removeDestination _ id => fun db db' => db.inUse id = false → db'.inUse id = false
  | _ => fun _ _ => True

instance (q : Request) (db db' : Db) : Decidable (payoutRely q db db') := by
  cases q <;> (unfold payoutRely; infer_instance)

/-- Nothing follows on an answer. -/
def quiet : Answer → Bool := fun _ => false

variable {db db' : Db} {n n' : ℕ} {H : Set Lock} {rely : Db → Db → Prop} {post : Answer → Db → Prop}

/-- The write opens no withdrawal and removes no destination. -/
def keepsPayouts : Write → Prop
  | .withdrawal _ | .config _ => False
  | .withdrawalStatus _ st => st.isOpen = false
  | _ => True

theorem noneRemoved_put {w : Write} (hw : keepsPayouts w) (h : NoneRemoved db) : NoneRemoved (db.put w) := by
  cases w with
  | withdrawal r | config c => exact hw.elim
  | withdrawalStatus id st =>
    intro r hr ho
    obtain ⟨r₀, hr₀, heq⟩ := mem_map.1 hr
    split_ifs at heq with hid
    · rw [← heq] at ho
      exact absurd ho (by rw [show st.isOpen = false from hw]; nofun)
    · rw [← heq] at ho ⊢
      exact h r₀ hr₀ ho
  | _ => exact h

theorem noneRemoved_view {ws : List Write} (hws : ∀ w ∈ ws, keepsPayouts w) (h : NoneRemoved db) :
    NoneRemoved (view ws db) :=
  foldlRecOn ws _ h fun _ h w hw => noneRemoved_put (hws w hw) h

/-- A destination that is written with a status other than removed. -/
theorem noneRemoved_setDestination {id : ℕ} (hd : d.status ≠ .removed ∨ db.inUse id = false) (h : NoneRemoved db) :
    NoneRemoved (db.put (.config (db.config.setDestination id d))) := by
  intro w hw ho
  unfold Db.removed
  dsimp only [Db.put, Config.setDestination]
  by_cases hid : w.destination = id
  · rw [hid, Function.update_self, Option.any_some]
    refine decide_eq_false (hd.resolve_right fun huse => ?_)
    have hnot := any_eq_false.1 huse w hw
    simp [hid, ho] at hnot
  · rw [Function.update_of_ne hid]
    exact h w hw ho

/-! ### The routes -/

section Routes

variable {p : Prog} {ws : List Write} {hashtext : String → ℤ} {ctx : Investor} {id org : ℕ}
  {note : String} {body : Decision} {new : DestinationStatus}

theorem meets_done {a : Answer} : Meets Db.put payoutSpec quiet rely post (.done a) H ws db n := nofun

theorem meets_requireMpin {mpin : Option Answer} (h : Meets Db.put payoutSpec quiet rely post p H ws db n) :
    Meets Db.put payoutSpec quiet rely post (requireMpin mpin p) H ws db n := by
  cases mpin with
  | none => exact h
  | some failure => exact meets_done

theorem meets_attempt {α : Type} {x : Except String α} {k : α → Prog}
    (h : ∀ a, Meets Db.put payoutSpec quiet rely post (k a) H ws db n) :
    Meets Db.put payoutSpec quiet rely post (attempt x k) H ws db n := by
  cases x with
  | error e => exact meets_done
  | ok a => exact h a

/-- A program whose writes open no withdrawal and remove no destination. -/
theorem meets_of_keeps (h : Harmless keepsPayouts (fun _ => True) p) :
    Meets Db.put payoutSpec quiet rely post p H [] db n :=
  Meets.of_harmless (F := fun _ => True) (fun _ h => h)
    (fun hdb _ hws => ⟨noneRemoved_view hws hdb, trivial⟩) nofun h
    (forall_mem_nil _) trivial

theorem meets_requestWithdrawal {body : WithdrawalRequest} :
    Meets Db.put payoutSpec quiet (payoutRely (.requestWithdrawal ctx body)) post
      (Portal.requestWithdrawal hashtext ctx body) H [] db n := by
  refine meets_requireMpin (meets_attempt fun amount db₁ n₁ hc₁ => ?_)
  dsimp only [view_nil]
  split
  · exact meets_done
  · next dest hdest =>
    by_cases hdenied : dest.who ≠ ctx ∨ dest.status ≠ .approved
    · rw [if_pos hdenied]
      exact meets_done
    rw [if_neg hdenied]
    -- the destination is approved here, and is not removed while the request is in progress
    obtain ⟨-, happroved⟩ := not_or.1 hdenied
    have hkept : db₁.removed body.destinationId = false := by
      unfold Db.removed
      rw [hdest, Option.any_some, not_not.1 happroved]
      rfl
    refine Meets.of_harmless (F := fun db => db.removed body.destinationId = false)
      (P := fun w => ∃ r : Withdrawal, w = .withdrawal r ∧ r.destination = body.destinationId) (G := fun _ => True)
      ?_ ?_ nofun ?_ (forall_mem_nil _) hkept
    · exact fun hc => hc.keeps (P := payoutRely (.requestWithdrawal ctx body)) (fun _ h => h)
        (fun _ _ _ h₁ h₂ h => h₂ (h₁ h)) fun _ _ _ _ _ _ h => h
    · intro n H db ws hdb hF hws
      refine foldlRecOn (motive := fun db => NoneRemoved db ∧ db.removed body.destinationId = false) ws
        _ ⟨hdb, hF⟩ ?_
      intro db ⟨hdb, hF⟩ w hw
      obtain ⟨r, rfl, hr⟩ := hws w hw
      refine ⟨fun r' hr' ho => ?_, hF⟩
      rcases Table.mem_of_mem_insert hr' with rfl | hr'
      · rw [hr]
        exact hF
      · exact hdb r' hr' ho
    · intro db₂
      dsimp only
      by_cases hmin : amount.1 < (db₂.config.settings ctx.org).withdrawalMin
      · rw [if_pos hmin]
        exact trivial
      · rw [if_neg hmin]
        intro db₃ db₄ db₅
        dsimp only
        split_ifs
        · exact trivial
        · exact trivial
        · exact trivial
        · exact fun db n => ⟨fun w hw => ⟨_, mem_singleton.1 hw, rfl⟩, trivial⟩

theorem harmless_updateRowAuto {hit : Db → Bool} {w : Db → Write} {l : Lock} {p p' : Prog}
    (hw : ∀ db, keepsPayouts (w db))
    (hp : Harmless keepsPayouts (fun _ => True) p) (hp' : Harmless keepsPayouts (fun _ => True) p') :
    Harmless keepsPayouts (fun _ => True) (updateRowAuto hit w l p p') := by
  intro db n
  dsimp only
  split_ifs
  · exact ⟨fun v hv => mem_singleton.1 hv ▸ hw db, hp⟩
  · exact ⟨forall_mem_nil _, hp'⟩

theorem meets_cancelWithdrawal :
    Meets Db.put payoutSpec quiet rely post (Portal.cancelWithdrawal ctx id) H [] db n := by
  refine meets_of_keeps fun db => ?_
  dsimp only
  split
  · exact trivial
  · split_ifs
    · exact trivial
    · exact harmless_updateRowAuto (fun _ => rfl) trivial trivial
    · exact trivial

/-- The status of a withdrawal moves along its table: an open one was open. -/
theorem meets_withdrawalDecision {new : WithdrawalStatus} :
    Meets Db.put payoutSpec quiet rely post (withdrawalDecision org id new note) H [] db n := by
  refine meets_attempt fun _ db₁ n₁ hc₁ => ?_
  dsimp only [view_nil]
  split
  · exact meets_done
  · next w hw =>
    split_ifs with horg hnext
    · exact meets_done
    · intro db₂ n₂ hc₂
      dsimp only
      by_cases hit : db₂.withdrawalIs id org w.status = true
      · rw [if_pos hit, if_pos hit]
        refine ⟨fun r hr ho => ?_, meets_done⟩
        obtain ⟨r₀, hr₀, heq⟩ := mem_map.1 hr
        have hopen : r₀.status.isOpen = true := by
          split_ifs at heq with hid
          · -- the row that is updated had the status that was read
            rw [← heq] at ho
            unfold Db.withdrawalIs at hit
            rw [show db₂.withdrawals.find id = some r₀ from hid ▸ Table.find_of_mem hr₀] at hit
            have hst : r₀.status = w.status := by simpa using (Bool.and_eq_true_iff.1 hit).2
            rw [hst]
            exact WithdrawalStatus.isOpen_of_next hnext ho
          · rw [← heq] at ho
            exact ho
        have hdest : r.destination = r₀.destination := by
          rw [← heq]
          split_ifs <;> rfl
        rw [hdest]
        exact hc₂.inv r₀ hr₀ hopen
      · rw [if_neg hit, if_neg hit]
        exact ⟨hc₂.inv, meets_done⟩
    · exact meets_done

theorem meets_decideWithdrawal :
    Meets Db.put payoutSpec quiet rely post (Portal.decideWithdrawal org id body) H [] db n := by
  unfold Portal.decideWithdrawal
  split
  · exact meets_withdrawalDecision
  · exact meets_withdrawalDecision
  · exact meets_done

theorem meets_markWithdrawalPaid {txid : String} :
    Meets Db.put payoutSpec quiet rely post (Portal.markWithdrawalPaid hashtext org id txid) H [] db n := by
  refine meets_attempt fun _ => meets_of_keeps fun db => ?_
  dsimp only
  split
  · exact trivial
  · split_ifs
    · exact trivial
    · intro db n
      dsimp only
      split_ifs
      · refine ⟨fun v hv => mem_singleton.1 hv ▸ rfl, fun db n => ⟨fun v hv => ?_, trivial⟩⟩
        dsimp only at hv
        split_ifs at hv
        · cases hv
        · exact mem_singleton.1 hv ▸ trivial
      · exact ⟨forall_mem_nil _, trivial⟩
    · exact trivial

theorem meets_addDestination {body : DestinationBody} :
    Meets Db.put payoutSpec quiet rely post (addDestination ctx body) H [] db n := by
  refine meets_requireMpin ?_
  split
  · exact meets_done
  · refine meets_attempt fun _ => meets_attempt fun _ => ?_
    split_ifs
    · exact meets_done
    · exact meets_done
    · exact fun db' n' hc => ⟨noneRemoved_setDestination (.inl (by nofun)) hc.inv, meets_done⟩

/-- The `UPDATE` of a destination, if what it writes keeps the invariant. -/
theorem meets_updateDestination {old : DestinationStatus}
    (h : ∀ db' n', payoutSpec.Change rely H db n db' n' → ∀ d : PayoutDestination,
      NoneRemoved (db'.put (.config (db'.config.setDestination id { d with status := new })))) :
    Meets Db.put payoutSpec quiet rely post (updateDestination org id old new) H [] db n := by
  intro db' n' hc
  dsimp only
  cases db'.destinationIs id org old with
  | none => exact ⟨hc.inv, meets_done⟩
  | some d => exact ⟨h db' n' hc d, meets_done⟩

theorem meets_destinationDecision (hnew : new ≠ .removed) :
    Meets Db.put payoutSpec quiet rely post (destinationDecision org id new note) H [] db n := by
  refine meets_attempt fun _ db₁ n₁ hc₁ => ?_
  dsimp only [view_nil]
  split
  · exact meets_done
  · split_ifs
    · exact meets_done
    · exact meets_updateDestination fun db' n' hc d => noneRemoved_setDestination (.inl hnew) hc.inv
    · exact meets_done

theorem meets_decideDestination :
    Meets Db.put payoutSpec quiet rely post (decideDestination org id body) H [] db n := by
  unfold decideDestination
  split
  · exact meets_destinationDecision (by nofun)
  · exact meets_destinationDecision (by nofun)
  · exact meets_done

theorem meets_removeDestination :
    Meets Db.put payoutSpec quiet (payoutRely (.removeDestination ctx id)) post (removeDestination ctx id)
      H [] db n := by
  intro db₁ n₁ hc₁
  dsimp only [view_nil]
  split
  · exact meets_done
  · split_ifs
    · exact meets_done
    · intro db₂ n₂ hc₂
      dsimp only [view_nil]
      split_ifs with huse
      · exact meets_done
      · -- no open withdrawal uses the destination here, and none comes while the removal is in progress
        refine meets_updateDestination fun db' n' hc d => noneRemoved_setDestination (.inr ?_) hc.inv
        exact hc.keeps (P := payoutRely (.removeDestination ctx id)) (fun _ h => h)
          (fun _ _ _ h₁ h₂ h => h₂ (h₁ h)) (fun _ _ _ _ _ _ h => h) (Bool.eq_false_iff.2 huse)
    · exact meets_done

theorem routesMeet (hashtext : String → ℤ) :
    RoutesMeet Db.put payoutSpec quiet payoutRely (fun _ _ _ => True) (route hashtext) fun _ => True := by
  intro q _ db n _
  cases q with
  | requestWithdrawal ctx body => exact meets_requestWithdrawal
  | cancelWithdrawal ctx id => exact meets_cancelWithdrawal
  | decideWithdrawal org id body => exact meets_decideWithdrawal
  | markWithdrawalPaid org id txid => exact meets_markWithdrawalPaid
  | addDestination ctx body => exact meets_addDestination
  | decideDestination org id body => exact meets_decideDestination
  | removeDestination ctx id => exact meets_removeDestination
  | configure c => exact fun db' n' hc => ⟨hc.inv, meets_done⟩

end Routes

/-- **A removed destination has no open withdrawal**, if no destination is removed while a withdrawal request to it
is in progress, and no withdrawal to it is filed while its removal is. -/
theorem removed_without_open (hashtext : String → ℤ) {s : Sys} (h0 : NoneRemoved db)
    (h : Machine.Run (fire Db.put (route hashtext)) (Polite Db.put (route hashtext) quiet payoutRely fun _ => True)
      (.init db n) s) {w : Withdrawal} (hw : w ∈ s.db.withdrawals.rows)
    (ho : w.status = .requested ∨ w.status = .approved) {d : PayoutDestination}
    (hd : s.db.config.destination w.destination = some d) : d.status ≠ .removed := by
  have hinv : NoneRemoved s.db := (governed_run (routesMeet hashtext) h0 h).inv
  have hopen : w.status.isOpen = true := by
    rcases ho with ho | ho <;> rw [ho] <;> rfl
  have hnot := hinv w hw hopen
  unfold Db.removed at hnot
  rw [hd, Option.any_some] at hnot
  exact of_decide_eq_false hnot

/-! ### Runs -/

/-- Investor `⟨1, 1⟩` has 100.00 in the main wallet and the approved destinations 7 and 8. -/
def sampleDb : Db where
  entries := Table.empty.insert ⟨1, ⟨1, 1⟩, .main, 10000, .adjustment, none, by decide⟩
  deposits := .empty
  withdrawals := .empty
  transfers := .empty
  bonuses := .empty
  accounts := .empty
  config :=
    { method := fun _ => none
      destination := fun id => if id = 7 ∨ id = 8 then some ⟨⟨1, 1⟩, .approved⟩ else none
      settings := fun _ => ⟨0, 0, 5⟩
      rules := fun _ => .off
      investor := fun _ _ => true
      file := fun _ _ => false
      attached := fun _ => false }

/-- A withdrawal of 40.00. -/
def sampleWithdrawal (id : ℕ) : Request := .requestWithdrawal ⟨1, 1⟩ ⟨none, .num 40, id, false⟩

/-- Session `i` serves a request in `k` statements. -/
def serve (i : ℕ) (q : Request) (k : ℕ) : List (Action Request) := .start i q :: List.replicate k (.run i)

/-- A withdrawal to 7 is cancelled and 7 removed, beside an open withdrawal to 8. -/
theorem removed_without_open_cancelled : ∃ s : Sys,
    Machine.Run (fire Db.put (route fun _ => 0)) (Polite Db.put (route fun _ => 0) quiet payoutRely fun _ => True)
      (.init sampleDb 10) s ∧
    (s.db.withdrawals.rows.map (fun w => (w.destination, w.status)) = [(8, .requested), (7, .cancelled)] ∧
      s.db.removed 7 = true) ∧
    ∀ w ∈ s.db.withdrawals.rows, w.status = .requested ∨ w.status = .approved →
      ∀ d, s.db.config.destination w.destination = some d → d.status ≠ .removed := by
  obtain ⟨s, hs, hp⟩ := exists_polite Db.put (route fun _ => 0) quiet payoutRely 4
    ((serve 0 (sampleWithdrawal 7) 8).append ((serve 1 (.cancelWithdrawal ⟨1, 1⟩ 10) 2).append
      ((serve 2 (.removeDestination ⟨1, 1⟩ 7) 3).append (serve 3 (sampleWithdrawal 8) 8))))
    sampleDb 10
    (P := fun s : Sys => s.db.withdrawals.rows.map (fun w => (w.destination, w.status)) =
      [(8, .requested), (7, .cancelled)] ∧ s.db.removed 7 = true) (by decide +kernel)
  exact ⟨s, hs, hp, fun w hw ho d hd => removed_without_open _ (by decide) hs hw ho hd⟩

/-- **A withdrawal to a removed destination**: the request has read that destination 7 is approved, the destination
is removed, and then the withdrawal is filed. -/
theorem withdrawal_to_removed : NoneRemoved sampleDb ∧ ∃ s : Sys,
    Machine.Run (fire Db.put (route fun _ => 0)) (fun _ _ => True) (.init sampleDb 10) s ∧
    ∃ w ∈ s.db.withdrawals.rows, w.status = .requested ∧
      (s.db.config.destination w.destination).map PayoutDestination.status = some .removed :=
  ⟨by decide, Machine.exists_run
    ((serve 0 (sampleWithdrawal 7) 1).append ((serve 1 (.removeDestination ⟨1, 1⟩ 7) 3).append
      (replicate 7 (.run 0)))) _ (by decide +kernel)⟩

end Payout

end Portal
