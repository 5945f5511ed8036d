import CopyTrading.Members.Programs

/-!
# Members.AccountRequests — open requests and sealed passwords

A row has sealed passwords only while it is `requested`: that is a `CHECK`, a field of the row here.  That an open
request belongs to an investor is the routes' part.  `request_account` learns in its dependency that the caller is
an investor and inserts the row later; a change of the member cancels the open requests that it finds.  Each relies
on the other not to come in between.
-/

namespace Members

open List

variable {w : Write} {r : AccountRequest} {ws : List Write}

open ReadCommitted

/-- The user is an investor of the org. -/
def Db.isInvestor (db : Db) (who : Who) : Bool := (db.memberships.find who).any fun m => m.role = .investor

/-- Every open request belongs to an investor. -/
def Db.OpenInvestors (db : Db) : Prop := ∀ r ∈ db.requests.rows, r.isOpen = true → db.isInvestor r.who = true

instance (db : Db) : Decidable db.OpenInvestors := by unfold Db.OpenInvestors; infer_instance

/-- Every commit leaves open requests to investors only. -/
def requestSpec : Spec Db Lock where
  I _ db := db.OpenInvestors
  Act _ _ _ db' := db'.OpenInvestors
  mono _ h := h
  act_inv _ h := h

/-- An investor stays one. -/
def StaysInvestor (who : Who) (db db' : Db) : Prop := db.isInvestor who = true → db'.isInvestor who = true

/-- The member gets no new open request. -/
def NoNewRequest (who : Who) (db db' : Db) : Prop :=
  ∀ r ∈ db'.requests.rows, r.who = who → r.isOpen = true → r ∈ db.requests.rows

instance (who : Who) (db db' : Db) : Decidable (StaysInvestor who db db') := by
  unfold StaysInvestor; infer_instance

instance (who : Who) (db db' : Db) : Decidable (NoNewRequest who db db') := by unfold NoNewRequest; infer_instance

/-- An account request bears no change of its investor, a change of a member no new request of theirs. -/
def requestRely : Request → Db → Db → Prop
  | .requestAccount c org _ => StaysInvestor ⟨org, c.user⟩
  | .patchMember _ org user _ | .removeMember _ org user => NoNewRequest ⟨org, user⟩
  | _ => fun _ _ => True

instance (q : Request) (db db' : Db) : Decidable (requestRely q db db') := by
  cases q <;> (unfold requestRely; infer_instance)

/-! ### What the writes do to the open requests -/

variable {db db' : Db} {n n' : ℕ} {H H' : Set Lock} {who : Who}

/-- The write makes no investor less and adds no open request. -/
def Write.keepsInvestors : Write → Prop
  | .role .. | .leave _ | .request _ => False
  | _ => True

theorem isInvestor_put (hw : w.keepsInvestors) (h : db.isInvestor who = true) :
    (db.put w).isInvestor who = true := by
  cases w with
  | join m =>
    obtain ⟨a, ha, hr⟩ := (Option.any_eq_true _ _).1 h
    have hfind : (db.put (.join m)).memberships.find who = some a := by
      dsimp only [Db.put]
      rw [Table.find_insert, ha]
      split_ifs <;> rfl
    unfold Db.isInvestor
    rw [hfind]
    exact hr
  | role who role | leave who => exact hw.elim
  | _ => exact h

/-- An open request of the state after a write was there before, unless it is the one written. -/
theorem open_put (hr : r ∈ (db.put w).requests.rows) (ho : r.isOpen = true) :
    w = .request r ∨ (r ∈ db.requests.rows ∧ ∀ e, w ≠ .close r.id e) := by
  cases w with
  | request r' =>
    rcases Table.mem_of_mem_insert hr with rfl | hr
    · exact .inl rfl
    · exact .inr ⟨hr, nofun⟩
  | close id e =>
    refine .inr ?_
    obtain ⟨r₀, hr₀, heq⟩ := mem_map.1 hr
    split_ifs at heq with hid
    · rw [← heq, AccountRequest.isOpen_close] at ho
      cases ho
    · subst heq
      refine ⟨hr₀, fun e' he => hid ?_⟩
      exact (Write.close.inj he).1.symm
  | _ => exact .inr ⟨hr, nofun⟩

theorem openInvestors_put (hw : w.keepsInvestors) (h : db.OpenInvestors) : (db.put w).OpenInvestors := by
  intro r hr ho
  rcases open_put hr ho with rfl | ⟨hr, -⟩
  · exact hw.elim
  · exact isInvestor_put hw (h r hr ho)

theorem openInvestors_view (hws : ∀ w ∈ ws, w.keepsInvestors) (h : db.OpenInvestors) :
    (view ws db).OpenInvestors :=
  foldlRecOn ws _ h fun _ h w hw => openInvestors_put (hws w hw) h

/-! ### A change of a member -/

/-- A write of a change of the member `who`: the membership, or a cancelled request. -/
def Write.ofMember (who : Who) (w : Write) : Prop := (∃ role, w = .role who role) ∨ w = .leave who ∨ w.isCancel

theorem isInvestor_put_ne (hw : w.ofMember who) {who' : Who} (hne : who' ≠ who) :
    (db.put w).isInvestor who' = db.isInvestor who' := by
  unfold Db.isInvestor
  rcases hw with ⟨role, rfl⟩ | rfl | ⟨id, rfl⟩
  · dsimp only [Db.put]
    rw [Table.find_modify_ne hne.symm]
  · dsimp only [Db.put]
    rw [Table.find_delete, if_neg (by simpa using hne)]
  · rfl

/-- An open request stays, unless it is cancelled. -/
theorem open_or_cancelled (hws : ∀ w ∈ ws, w.ofMember who)
    (hr : r ∈ db.requests.rows) : .close r.id .cancelled ∈ ws ∨ r ∈ (view ws db).requests.rows := by
  induction ws generalizing db with
  | nil => exact .inr hr
  | cons w ws ih =>
    by_cases hw : w = .close r.id .cancelled
    · exact .inl (hw ▸ mem_cons_self)
    · have hr' : r ∈ (db.put w).requests.rows := by
        rcases hws w mem_cons_self with ⟨role, rfl⟩ | rfl | ⟨id, rfl⟩
        · exact hr
        · exact hr
        · refine mem_map.2 ⟨r, hr, if_neg fun he => hw ?_⟩
          rw [← he, key_request]
      rcases ih (fun v hv => hws v (mem_cons_of_mem w hv)) hr' with h | h
      · exact .inl (mem_cons_of_mem w h)
      · exact .inr h

/-- The open requests of the member are still to be looked at or cancelled. -/
def Cancelling (who : Who) (db : Db) (ids : List ℕ) (ws : List Write) : Prop :=
  ∀ r ∈ db.requests.rows, r.who = who → r.isOpen = true → r.id ∈ ids ∨ .close r.id .cancelled ∈ ws

variable {ids : List ℕ} {ws : List Write}

theorem Cancelling.change (h : Cancelling who db ids ws)
    (hc : requestSpec.Change (NoNewRequest who) H db n db' n') :
    Cancelling who db' ids ws := by
  have hold : NoNewRequest who db db' :=
    hc.keeps (fun _ r hr _ _ => hr) (fun _ _ _ h₁ h₂ r hr hw ho => h₁ r (h₂ r hr hw ho) hw ho)
      fun _ _ _ _ _ _ hr => hr
  exact fun r hr hw ho => h r (hold r hr hw ho) hw ho

section

variable (hws : ∀ w ∈ ws, w.ofMember who)
include hws

theorem cancelling_openRequests :
    Cancelling who db ((view ws db).openRequests who) ws := by
  intro r hr hw ho
  rcases open_or_cancelled hws hr with h | h
  · exact .inr h
  · exact .inl (mem_map.2 ⟨r, mem_filter.2 ⟨h, by simp [hw, ho]⟩, rfl⟩)

/-- The next request is looked at. -/
theorem Cancelling.next {id : ℕ} (h : Cancelling who db (id :: ids) ws) :
    Cancelling who db ids (ws ++
      if ((view ws db).requests.find id).any AccountRequest.isOpen then [.close id .cancelled] else []) := by
  intro r hr hw ho
  rcases h r hr hw ho with hin | hin
  · rcases mem_cons.1 hin with rfl | hin
    · refine .inr (mem_append.2 ?_)
      rcases open_or_cancelled hws hr with hc | hc
      · exact .inl hc
      · have hfind : (view ws db).requests.find r.id = some r := Table.mem_iff_find.1 hc
        rw [hfind, Option.any_some, if_pos ho]
        exact .inr (mem_singleton_self _)
    · exact .inl hin
  · exact .inr (mem_append_left _ hin)

/-- With the requests of the member cancelled, the open ones are of other members, who stay as they are. -/
theorem Cancelling.openInvestors (h : Cancelling who db [] ws) (hdb : db.OpenInvestors) :
    (view ws db).OpenInvestors := by
  have hview : ∀ {r : AccountRequest}, r ∈ (view ws db).requests.rows → r.isOpen = true →
      r ∈ db.requests.rows ∧ .close r.id .cancelled ∉ ws ∧
        ∀ who' ≠ who, (view ws db).isInvestor who' = db.isInvestor who' := by
    clear h hdb
    induction ws generalizing db with
    | nil => exact fun hr _ => ⟨hr, not_mem_nil, fun _ _ => rfl⟩
    | cons w ws ih =>
      intro r hr ho
      have hw := hws w mem_cons_self
      obtain ⟨hr', hnot, hsame⟩ := ih (fun v hv => hws v (mem_cons_of_mem w hv)) hr ho
      rcases open_put hr' ho with rfl | ⟨hr'', hne⟩
      · rcases hw with ⟨_, he⟩ | he | ⟨_, he⟩ <;> cases he
      · refine ⟨hr'', fun hmem => ?_, fun who' hwho => ?_⟩
        · rcases mem_cons.1 hmem with he | hmem
          · exact hne _ he.symm
          · exact hnot hmem
        · exact (hsame who' hwho).trans (isInvestor_put_ne hw hwho)
  intro r hr ho
  obtain ⟨hr', hnot, hsame⟩ := hview hr ho
  by_cases hw : r.who = who
  · rcases h r hr' hw ho with hin | hin
    · cases hin
    · exact absurd hin hnot
  · rw [hsame r.who hw]
    exact hdb r hr' ho

end

/-! ### The routes -/

section Routes

variable {post : Reply → Db → Prop} {a : Reply} {c : Caller} {org : ℕ}

theorem meets_cancelOpenAccountRequests (hws : ∀ w ∈ ws, w.ofMember who) :
    Meets Db.put requestSpec quiet (NoNewRequest who) post
      (cancelOpenAccountRequests who (.commit (.done a))) H ws db n := by
  have heach : ∀ ids ws H db n, (∀ w ∈ ws, w.ofMember who) → Cancelling who db ids ws →
      Meets Db.put requestSpec quiet (NoNewRequest who) post (cancelEach (.commit (.done a)) ids) H ws db n := by
    intro ids
    induction ids with
    | nil => exact fun ws H db n hws hcan db' n' hc => ⟨(hcan.change hc).openInvestors hws hc.inv, nofun⟩
    | cons id ids ih =>
      intro ws H db n hws hcan db' n' hc
      refine ih _ _ _ _ (fun w hw => ?_) ((hcan.change hc).next hws)
      rcases mem_append.1 hw with hw | hw
      · exact hws w hw
      · dsimp only at hw
        split_ifs at hw
        · exact .inr (.inr ⟨id, mem_singleton.1 hw⟩)
        · cases hw
  exact fun db' n' _ => heach _ _ _ _ _ hws (cancelling_openRequests hws)

/-- The member is made an investor: their open requests stay, and so does everyone else. -/
theorem openInvestors_role_investor (h : db.OpenInvestors) : (db.put (.role who .investor)).OpenInvestors := by
  intro r hr ho
  have hold := h r hr ho
  by_cases hw : r.who = who
  · obtain ⟨m, hm, -⟩ := (Option.any_eq_true _ _).1 hold
    unfold Db.isInvestor
    dsimp only [Db.put]
    rw [hw] at hm ⊢
    rw [Table.find_modify_self hm]
    rfl
  · rw [isInvestor_put_ne (.inl ⟨_, rfl⟩) hw]
    exact hold

theorem meets_patchMember_requests {user : ℕ} {role : Option Role} :
    Meets Db.put requestSpec quiet (NoNewRequest ⟨org, user⟩) post (patchMember c org user role) H [] db n := by
  unfold patchMember
  refine meets_requireOrgRole final_quiet fun _ _ _ _ _ => ?_
  cases role with
  | none => exact meets_final final_quiet trivial
  | some role =>
    refine meets_lockAdmins fun ids H db n => meets_lockMember ?_ ?_
    · exact fun _ _ _ => meets_rollback final_quiet
    · intro m db' n' _ _ _
      dsimp only
      split_ifs with hlast hrole
      · exact meets_rollback final_quiet
      · refine fun _ _ _ => meets_cancelOpenAccountRequests fun w hw => ?_
        exact .inl ⟨role, mem_singleton.1 hw⟩
      · refine fun _ _ _ _ _ hc => ⟨?_, nofun⟩
        obtain rfl : role = .investor := not_not.1 hrole
        exact openInvestors_role_investor hc.inv

theorem meets_removeMember_requests {user : ℕ} :
    Meets Db.put requestSpec quiet (NoNewRequest ⟨org, user⟩) post (removeMember c org user) H [] db n := by
  unfold removeMember
  refine meets_requireOrgRole final_quiet fun _ _ _ _ _ => ?_
  split_ifs
  · exact meets_final final_quiet trivial
  · refine meets_lockAdmins fun ids H db n => meets_lockMember ?_ ?_
    · exact fun _ _ _ => meets_rollback final_quiet
    · intro m db' n' _ _ _
      dsimp only
      split_ifs
      · exact meets_rollback final_quiet
      · refine fun _ _ _ => meets_cancelOpenAccountRequests fun w hw => ?_
        exact .inr (.inl (mem_singleton.1 hw))

theorem meets_requestAccount {sealWith : String → String} {body : AccountRequestBody} :
    Meets Db.put requestSpec quiet (StaysInvestor ⟨org, c.user⟩) post (requestAccount sealWith c org body)
      H [] db n := by
  obtain ⟨p, hp, hharmless⟩ := requestAccount_parts sealWith c org body
  rw [hp]
  refine meets_requireInvestor final_quiet fun m db' n' hc hm hrole => ?_
  -- the caller is an investor here, and stays one
  have hinv : db'.isInvestor ⟨org, c.user⟩ = true := by
    unfold Db.isInvestor
    rw [hm, Option.any_some, hrole]
    rfl
  refine Meets.of_harmless (F := fun db => db.isInvestor ⟨org, c.user⟩ = true) ?_ ?_
    (fun _ hp => (Bool.false_ne_true hp).elim) hharmless
    (forall_mem_nil _) hinv
  · exact fun hc => hc.keeps (P := StaysInvestor ⟨org, c.user⟩) (fun _ h => h) (fun _ _ _ h₁ h₂ h => h₂ (h₁ h))
      fun _ _ _ _ _ _ h => h
  · intro n H db ws hdb hF hws
    refine foldlRecOn (motive := fun db : Db => db.OpenInvestors ∧ db.isInvestor ⟨org, c.user⟩ = true) ws
      _ ⟨hdb, hF⟩ ?_
    intro db ⟨hdb, hF⟩ w hw
    cases hws w hw with
    | request hr =>
      refine ⟨fun r' hr' ho => ?_, hF⟩
      rcases open_put hr' ho with he | ⟨hold, -⟩
      · rw [← Write.request.inj he, hr]
        exact hF
      · exact hdb r' hold ho
    | endSessions he => cases he

/-- The request changes no member and files no account request. -/
def Request.keepsInvestors : Request → Prop
  | .patchMember .. | .removeMember .. | .requestAccount .. => False
  | _ => True

theorem Request.May.keepsInvestors {q : Request} {w : Write} (h : q.May w) (hq : q.keepsInvestors) :
    w.keepsInvestors := by
  cases h with
  | role | leave | request => exact hq
  | _ => exact trivial

theorem routesMeet_requests (sealWith : String → String) :
    RoutesMeet Db.put requestSpec quiet requestRely (fun _ _ _ => True) (route sealWith) fun _ => True := by
  intro q _ db n _
  by_cases hq : q.keepsInvestors
  · exact Meets.of_harmless (F := fun _ => True) (fun _ h => h)
      (fun hdb _ hws => ⟨openInvestors_view (fun w hw => (hws w hw).keepsInvestors hq) hdb, trivial⟩)
      (fun _ hp => (Bool.false_ne_true hp).elim) (harmless_route sealWith q) (forall_mem_nil _) trivial
  · cases q with
    | patchMember c org user role => exact meets_patchMember_requests
    | removeMember c org user => exact meets_removeMember_requests
    | requestAccount c org body => exact meets_requestAccount
    | _ => exact absurd trivial hq

end Routes

/-- **Open requests and sealed passwords**: if no investor is changed while an account request of theirs is in
progress, and none files one while a change of theirs is, every open request belongs to an investor of its org, and
sealed passwords are in open requests only. -/
theorem sealed_only_in_open (sealWith : String → String) {s : Sys} (h0 : db.OpenInvestors)
    (h : ConsiderateRun sealWith quiet requestRely (.init db n) s) {r : AccountRequest}
      (hr : r ∈ s.db.requests.rows) :
    (r.status = .requested → ∃ m ∈ s.db.memberships.rows, m.who = r.who ∧ m.role = .investor) ∧
    (r.mainPasswordEnc ≠ none ∨ r.investorPasswordEnc ≠ none → r.status = .requested) := by
  have hinv : s.db.OpenInvestors := (governed_run (routesMeet_requests sealWith) h0 h).inv
  refine ⟨fun hst => ?_, fun hpw => ?_⟩
  · obtain ⟨m, hm, hrole⟩ := (Option.any_eq_true _ _).1 (hinv r hr (decide_eq_true hst))
    obtain ⟨hmem, hkey⟩ := Table.find_eq_some hm
    exact ⟨m, hmem, hkey, of_decide_eq_true hrole⟩
  · rcases r.passwords_only_while_open with hst | ⟨hmain, hinvestor⟩
    · exact hst
    · rcases hpw with hpw | hpw
      · exact absurd hmain hpw
      · exact absurd hinvestor hpw

/-! ### Runs -/

/-- Org 1 with the admin 1 and the investors 4 and 5, who may choose package 7. -/
def investorOrg : Db where
  memberships := ⟨[⟨⟨1, 1⟩, .admin, 1⟩, ⟨⟨1, 4⟩, .investor, 2⟩, ⟨⟨1, 5⟩, .investor, 3⟩], by decide⟩
  invites := .empty
  requests := .empty
  accounts := .empty
  sessionVersion _ := some 0
  config := ⟨fun _ => true, fun _ => 3, fun id => if id = 7 then some ⟨1, true, [100]⟩ else none⟩

/-- A request for package 7 at 1:100. -/
def sampleBody : AccountRequestBody := ⟨none, some 7, some 100, some "Abcdefg1", some "Bcdefgh2"⟩

/-- Two investors file requests; one of them is removed, and their request is cancelled. -/
theorem sealed_only_in_open_removal : ∃ s, ConsiderateRun id quiet requestRely (.init investorOrg 10) s ∧
    s.db.requests.rows.map (fun r => (r.who.user, r.status)) = [(5, .requested), (4, .cancelled)] ∧
    ∀ r ∈ s.db.requests.rows,
      (r.status = .requested → ∃ m ∈ s.db.memberships.rows, m.who = r.who ∧ m.role = .investor) ∧
      (r.mainPasswordEnc ≠ none ∨ r.investorPasswordEnc ≠ none → r.status = .requested) := by
  obtain ⟨s, hs, hp⟩ := exists_polite Db.put (route id) quiet requestRely 3
    ((serve 0 (.requestAccount (signedIn 4) 1 sampleBody) 8).append
      ((serve 1 (.requestAccount (signedIn 5) 1 sampleBody) 8).append
        (serve 2 (.removeMember (signedIn 1) 1 4) 10)))
    investorOrg 10
    (P := fun s => s.db.requests.rows.map (fun r => (r.who.user, r.status)) = [(5, .requested), (4, .cancelled)])
    (by decide)
  exact ⟨s, hs, hp, fun r hr => sealed_only_in_open id (by decide) hs hr⟩

/-- **A request without an investor**: the dependency of investor 4's request has passed, they are removed, and
then the row is inserted with its sealed passwords. -/
theorem open_request_of_removed : investorOrg.OpenInvestors ∧ ∃ s, AnyRun id (.init investorOrg 10) s ∧
    ∃ r ∈ s.db.requests.rows, r.status = .requested ∧ r.mainPasswordEnc = some "Abcdefg1" ∧
      ∀ m ∈ s.db.memberships.rows, m.who ≠ r.who :=
  ⟨by decide, exists_anyRun id
    ((serve 0 (.requestAccount (signedIn 4) 1 sampleBody) 2).append
      ((serve 1 (.removeMember (signedIn 1) 1 4) 9).append (replicate 6 (.run 0))))
    (.init investorOrg 10) (by decide)⟩

end Members
