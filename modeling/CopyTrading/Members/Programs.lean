import CopyTrading.Members.Routes

/-!
# Members.Programs — the rule for the parts that the routes share

The dependencies of a route read and refuse.  `Request.May` and `Request.Answers` say once what each route can
write and answer; where that is all a result needs of a route, the route is harmless to it.
-/

namespace Members

open ReadCommitted List

/-! ### Runs -/

/-- Any run. -/
abbrev AnyRun (sealWith : String → String) : Sys → Sys → Prop :=
    Machine.Run (fire Db.put (route sealWith)) fun _ _ => True

/-- A run in which every step is borne by the requests in progress. -/
abbrev ConsiderateRun (sealWith : String → String) (pending : Reply → Bool) (rely : Request → Db → Db → Prop) :
    Sys → Sys → Prop :=
  Machine.Run (fire Db.put (route sealWith)) (Polite Db.put (route sealWith) pending rely fun _ => True)

/-- A user with a full session. -/
def signedIn (user : ℕ) : Caller := ⟨user, 0, true⟩

/-- Session `i` serves a request in `k` statements. -/
def serve (i : ℕ) (q : Request) (k : ℕ) : List (Action Request) := .start i q :: List.replicate k (.run i)

theorem exists_anyRun (sealWith : String → String) (as : List (Action Request)) (s : Sys) {P : Sys → Prop}
    [DecidablePred P]
    (h : ((Machine.fireAll (fire Db.put (route sealWith)) (fun _ _ => true) as s).any fun t =>
      Decidable.decide (P t)) =
      true) : ∃ t, AnyRun sealWith s t ∧ P t :=
  Machine.exists_run as s h

/-! ### Programs up to the transaction -/

section Programs

variable {S : Spec Db Lock} {pending : Reply → Bool} {rely : Db → Db → Prop}
  {post : Reply → Db → Prop} {p : Prog} {db : Db} {n : ℕ} {H : Set Lock} {ws : List Write}
  {a : Reply} {c : Caller} {org : ℕ}

/-- An answer on which nothing follows. -/
def Reply.isFinal : Reply → Prop
  | .ok | .error .. | .closeSocket .. => True
  | _ => False

/-- The answers on which nothing follows are not pending. -/
def Final (pending : Reply → Bool) : Prop := ∀ a : Reply, a.isFinal → pending a = false

/-- Nothing follows on any answer. -/
def quiet : Reply → Bool := fun _ => false

theorem final_quiet : Final quiet := fun _ _ => rfl

section

variable (hpend : Final pending)
include hpend

theorem meets_final (ha : a.isFinal) :
    Meets Db.put S pending rely post (.done a) H ws db n := by
  intro hp
  rw [hpend a ha] at hp
  cases hp

theorem meets_rollback {status : ℕ} {detail : String} :
    Meets Db.put S pending rely post (rollback status detail) H ws db n := by
  intro hp
  rw [hpend (.error status detail) trivial] at hp
  cases hp

section

variable (h : ∀ db' n', S.Change rely H db n db' n' → Meets Db.put S pending rely post p H [] db' n')
include h

theorem meets_requireHalfSession :
    Meets Db.put S pending rely post (requireHalfSession c p) H [] db n := by
  intro db' n' hc
  dsimp only [view_nil]
  split_ifs
  · exact h db' n' hc
  · exact meets_final hpend trivial

theorem meets_requireUser :
    Meets Db.put S pending rely post (requireUser c p) H [] db n := by
  refine meets_requireHalfSession hpend fun db' n' hc => ?_
  split_ifs
  · exact h db' n' hc
  · exact meets_final hpend trivial

end

theorem meets_requireOrgRole {min : Role} {k : Role → Prog}
    (h : ∀ m db' n', S.Change rely H db n db' n' → db'.memberships.find ⟨org, c.user⟩ = some m →
      Meets Db.put S pending rely post (k m.role) H [] db' n') :
    Meets Db.put S pending rely post (requireOrgRole c org min k) H [] db n := by
  refine meets_requireUser hpend fun db₁ n₁ hc₁ db₂ n₂ hc₂ => ?_
  dsimp only [view_nil]
  split
  · exact meets_final hpend trivial
  · next m hm =>
    split_ifs
    · exact meets_final hpend trivial
    · exact h m db₂ n₂ (hc₁.trans hc₂) hm

theorem meets_requireInvestor
    (h : ∀ m db' n', S.Change rely H db n db' n' → db'.memberships.find ⟨org, c.user⟩ = some m →
      m.role = .investor →
      Meets Db.put S pending rely post p H [] db' n') :
    Meets Db.put S pending rely post (requireInvestor c org p) H [] db n := by
  refine meets_requireOrgRole hpend fun m db' n' hc hm => ?_
  split_ifs with hrole
  · exact meets_final hpend trivial
  · exact h m db' n' hc hm (not_not.1 hrole)

end

theorem meets_lockAdmins {k : List ℕ → Prog}
    (hk : ∀ ids H db n, Meets Db.put S pending rely post (k ids) H [] db n) :
    Meets Db.put S pending rely post (lockAdmins org k) H [] db n := by
  have heach : ∀ ms ids H db n, Meets Db.put S pending rely post (lockEach k ms ids) H [] db n := by
    intro ms
    induction ms with
    | nil => exact hk
    | cons m ms ih => exact fun ids H db n db' n' _ => ih _ _ _ _
  exact fun db' n' _ => heach _ _ _ _ _

/-- The row of a member is locked and looked at again. -/
theorem meets_lockMember {who : Who} {k : Option Role → Prog}
    (hnone : ∀ H db n, Meets Db.put S pending rely post (k none) H [] db n)
    (hsome : ∀ m db' n', S.Change rely H db n db' n' → m ∈ db'.memberships.rows → m.who = who →
      Meets Db.put S pending rely post (k (some m.role)) (H ∪ {.member who}) [] db' (n' + 1)) :
    Meets Db.put S pending rely post (lockMember who k) H [] db n := by
  intro db₁ n₁ hc₁
  dsimp only [view_nil]
  cases hm : db₁.memberships.find who with
  | none => exact hnone _ _ _
  | some m =>
    intro db₂ n₂ hc₂
    have hset : H ∪ { l | l ∈ [Lock.member who] } = H ∪ {.member who} := by simp
    dsimp only [view_nil]
    rw [hset]
    cases hcur : db₂.current m with
    | none => exact hnone _ _ _
    | some m' =>
      obtain ⟨hmem, hkey⟩ := Table.find_eq_some (Option.filter_eq_some_iff.1 hcur).1
      exact hsome m' db₂ n₂ (hc₁.trans hc₂) hmem (hkey.trans (Table.find_eq_some hm).2)

/-- A statement that writes at most one row. -/
theorem writes_ite {P : Write → Prop} {c : Prop} [Decidable c] {w : Write} {ls : List Lock} (h : P w) :
    ∀ v ∈ (if c then (⟨[w], ls⟩ : Effect Write Lock) else ⟨[], []⟩).writes, P v := by
  split_ifs
  · exact forall_mem_singleton.2 h
  · exact forall_mem_nil _

/-- A cancelled account request. -/
def Write.isCancel (w : Write) : Prop := ∃ id, w = .close id .cancelled

theorem tail_cancelEach (ids : List ℕ) :
    Tail (D := Db) (L := Lock) Write.isCancel a (cancelEach (.commit (.done a)) ids) := by
  induction ids with
  | nil => exact rfl
  | cons id ids ih =>
    refine fun db n => ⟨fun w hw => ?_, ih⟩
    dsimp only at hw
    split_ifs at hw
    · exact ⟨id, mem_singleton.1 hw⟩
    · cases hw

theorem tail_cancelOpenAccountRequests (who : Who) :
    Tail (D := Db) (L := Lock) Write.isCancel a (cancelOpenAccountRequests who (.commit (.done a))) :=
  fun db => tail_cancelEach (db.openRequests who)

end Programs

/-! ### What the routes write and answer -/

/-- Whose sessions a request ends. -/
def Request.endsSessionsOf : Request → Option ℕ
  | .logoutEverywhere c | .changePassword c _ | .changeMpin c _ | .resetMpin c _ => some c.user
  | _ => none

/-- What a request may write. -/
inductive Request.May : Request → Write → Prop
  | consume {c t now} : May (.joinOrg c t now) (.consume t)
  | join {c t now m} : m.who.user = c.user → May (.joinOrg c t now) (.join m)
  | role {c org user role} : May (.patchMember c org user (some role)) (.role ⟨org, user⟩ role)
  | patched {c org user role id} : role ≠ .investor → May (.patchMember c org user (some role))
    (.close id .cancelled)
  | leave {c org user} : May (.removeMember c org user) (.leave ⟨org, user⟩)
  | removed {c org user id} : May (.removeMember c org user) (.close id .cancelled)
  | invite {c org role t expires i} : May (.createInvite c org role t expires) (.invite i)
  | revoke {c org id t} : May (.revokeInvite c org id) (.revoke t)
  | request {c org body r} : r.who = ⟨org, c.user⟩ → May (.requestAccount c org body) (.request r)
  | cancel {c org id} : May (.cancelAccountRequest c org id) (.close id .cancelled)
  | fulfil {c org id body login server} : May (.fulfilRequest c org id body) (.close id (.fulfilled login server))
  | owner {c org id body a u} : May (.fulfilRequest c org id body) (.owner a u)
  | reject {c org id note} : May (.rejectRequest c org id note) (.close id .rejected)
  | endSessions {q user} : q.endsSessionsOf = some user → May q (.endSessions user)
  | config {c} : May (.configure c) (.config c)

/-- What a request may answer. -/
inductive Request.Answers : Request → Reply → Prop
  | final {q a} : a.isFinal → Answers q a
  | closeFor {c org user} : Answers (.removeMember c org user) (.closeFor ⟨org, user⟩)
  | closeForUser {q user} : q.endsSessionsOf = some user → Answers q (.closeForUser user)
  | connect {h who} : Answers (.handshake h) (.connect who)

section Harmless

variable {P : Write → Prop} {G : Reply → Prop} {p : Prog} {c : Caller} {org : ℕ} {who : Who}
  {hit : Db → Bool}

theorem harmless_ite {c : Prop} [Decidable c] {p' : Prog} (h : Harmless P G p) (h' : ¬ c → Harmless P G p') :
    Harmless P G (if c then p else p') := by
  split_ifs with hc
  · exact h
  · exact h' hc

section

variable (hG : ∀ a : Reply, a.isFinal → G a)
include hG

theorem harmless_requireHalfSession (h : Harmless P G p) :
    Harmless P G (requireHalfSession c p) := by
  intro db
  dsimp only
  split_ifs
  · exact h
  · exact hG _ trivial

theorem harmless_requireUser (h : Harmless P G p) :
    Harmless P G (requireUser c p) := by
  refine harmless_requireHalfSession hG ?_
  split_ifs
  · exact h
  · exact hG _ trivial

theorem harmless_requireOrgRole {min : Role} {k : Role → Prog}
    (h : ∀ role, Harmless P G (k role)) : Harmless P G (requireOrgRole c org min k) := by
  refine harmless_requireUser hG fun db => ?_
  dsimp only
  split
  · exact hG _ trivial
  · exact harmless_ite (hG _ trivial) fun _ => h _

theorem harmless_requireInvestor (h : Harmless P G p) :
    Harmless P G (requireInvestor c org p) :=
  harmless_requireOrgRole hG fun _ => harmless_ite (hG _ trivial) fun _ => h

theorem harmless_attempt {α : Type} {x : Except String α} {k : α → Prog}
    (h : ∀ a, Harmless P G (k a)) : Harmless P G (attempt x k) := by
  unfold attempt
  split
  · exact hG _ trivial
  · exact h _

theorem harmless_gate {refusal : Option (ℕ × String)} (h : Harmless P G p) :
    Harmless P G (gate refusal p) := by
  unfold gate
  split
  · exact hG _ trivial
  · exact h

end

theorem harmless_lockAdmins {k : List ℕ → Prog} (h : ∀ ids, Harmless P G (k ids)) :
    Harmless P G (lockAdmins org k) := by
  intro db
  dsimp only
  generalize db.admins org = ms
  generalize ([] : List ℕ) = ids
  induction ms generalizing ids with
  | nil => exact h ids
  | cons m ms ih => exact fun db n => ⟨forall_mem_nil _, ih _⟩

theorem harmless_lockMember {k : Option Role → Prog} (h : ∀ row, Harmless P G (k row)) :
    Harmless P G (lockMember who k) := by
  intro db
  dsimp only
  split
  · exact h none
  · exact fun db n => ⟨forall_mem_nil _, h _⟩

theorem harmless_cancelOpenAccountRequests (hP : ∀ id, P (.close id .cancelled)) (h : Harmless P G p) :
    Harmless P G (cancelOpenAccountRequests who p) := by
  intro db
  dsimp only
  generalize db.openRequests who = ids
  induction ids with
  | nil => exact h
  | cons id ids ih =>
    refine fun db n => ⟨fun w hw => ?_, ih⟩
    dsimp only at hw
    split_ifs at hw
    · exact mem_singleton.1 hw ▸ hP id
    · cases hw

theorem harmless_openRequest {id : ℕ} {k : AccountRequest → Prog} (hG : ∀ a : Reply, a.isFinal → G a)
    (h : ∀ r, Harmless P G (k r)) : Harmless P G (openRequest org id k) := by
  intro db
  dsimp only
  split
  · exact hG _ trivial
  · split_ifs
    · exact h _
    · exact hG _ trivial

/-- A statement that writes at most one row and what follows. -/
theorem harmless_auto {e : ℕ → Effect Write Lock} {p p' : Prog} (hw : ∀ id, ∀ w ∈ (e id).writes, P w)
    (hp : Harmless P G p) (hp' : Harmless P G p') :
    Harmless P G (.auto (fun db id => if hit db then e id else ⟨[], []⟩) fun db _ =>
      if hit db then p else p') := by
  intro db n
  dsimp only
  by_cases h : hit db = true
  · rw [if_pos h, if_pos h]
    exact ⟨hw n, hp⟩
  · rw [if_neg h, if_neg h]
    exact ⟨forall_mem_nil _, hp'⟩

theorem harmless_exec {w : Write} {l : Lock} {p p' : Prog} (hw : P w) (hp : Harmless P G p)
    (hp' : Harmless P G p') :
    Harmless P G (.exec (fun db _ => if hit db then ⟨[w], [l]⟩ else ⟨[], []⟩) fun db _ =>
      if hit db then p else p') :=
  fun _ _ => ⟨writes_ite hw, harmless_ite hp fun _ => hp'⟩

theorem harmless_linkAccount {a : ℕ} (hG : ∀ a : Reply, a.isFinal → G a) (hw : P (.owner a (some who.user)))
    (hp : Harmless P G p) : Harmless P G (linkAccount who a p) := by
  intro db₁
  dsimp only
  split_ifs
  · exact hp
  · intro db₂
    dsimp only
    split
    · exact hG _ trivial
    · refine harmless_ite (hG _ trivial) fun _ => harmless_ite (hG _ trivial) fun _ db₃ db₄ => ?_
      exact harmless_ite (hG _ trivial) fun _ => harmless_exec hw hp (hG _ trivial)

theorem harmless_endSessions {user : ℕ} (hw : P (.endSessions user)) (ha : G (.closeForUser user)) :
    Harmless P G (endSessions user) := fun _ _ => ⟨writes_ite hw, ha⟩

/-- What `request_account` does once its dependency has found an investor. -/
theorem requestAccount_parts (sealWith : String → String) (c : Caller) (org : ℕ) (body : AccountRequestBody) :
    ∃ p, requestAccount sealWith c org body = requireInvestor c org p ∧
      Harmless (Request.requestAccount c org body).May (Request.requestAccount c org body).Answers p := by
  have hG : ∀ a : Reply, a.isFinal → (Request.requestAccount c org body).Answers a := fun _ => .final
  refine ⟨_, rfl, harmless_gate hG fun db₁ => harmless_ite (hG _ trivial) fun _ db₂ => ?_⟩
  refine harmless_ite (hG _ trivial) fun _ db₃ db₄ => harmless_ite (hG _ trivial) fun _ => ?_
  split
  · exact hG _ trivial
  · intro db₅
    dsimp only
    split
    · exact hG _ trivial
    · refine harmless_ite (hG _ trivial) fun _ => harmless_attempt hG fun main =>
        harmless_attempt hG fun investor => ?_
      refine harmless_ite (hG _ trivial) fun _ db n => ?_
      dsimp only
      split_ifs
      · exact ⟨forall_mem_singleton.2 (.request rfl), hG _ trivial⟩
      · exact ⟨forall_mem_nil _, hG _ trivial⟩

/-- **What the routes write and answer.** -/
theorem harmless_route (sealWith : String → String) (q : Request) :
    Harmless q.May q.Answers (route sealWith q) := by
  have hG : ∀ a : Reply, a.isFinal → q.Answers a := fun _ => .final
  have hok : q.Answers .ok := .final trivial
  cases q with
  | joinOrg c t now =>
    unfold route joinOrg
    refine harmless_requireUser hG fun db id => ?_
    dsimp only
    generalize (db.invites.find t).filter _ = invite
    cases invite with
    | none => exact ⟨forall_mem_nil _, hG _ trivial⟩
    | some i =>
      refine ⟨forall_mem_singleton.2 .consume, fun db id => ?_⟩
      dsimp only
      cases db.memberships.find ⟨i.org, c.user⟩ with
      | none => exact ⟨forall_mem_singleton.2 (.join rfl), hok⟩
      | some m => exact ⟨forall_mem_nil _, hG _ trivial⟩
  | patchMember c org member role =>
    unfold route patchMember
    refine harmless_requireOrgRole hG fun _ => ?_
    cases role with
    | none => exact hG _ trivial
    | some role =>
      refine harmless_lockAdmins fun ids => harmless_lockMember fun row => ?_
      split
      · exact hG _ trivial
      · split_ifs with hlast hrole
        · exact hG _ trivial
        · refine fun db n => ⟨forall_mem_singleton.2 .role, ?_⟩
          exact harmless_cancelOpenAccountRequests (fun id => .patched hrole) hok
        · exact fun db n => ⟨forall_mem_singleton.2 .role, hok⟩
  | removeMember c org member =>
    unfold route removeMember
    refine harmless_requireOrgRole hG fun _ => ?_
    refine harmless_ite (hG _ trivial) fun _ => harmless_lockAdmins fun ids => harmless_lockMember fun row => ?_
    split
    · exact hG _ trivial
    · refine harmless_ite (hG _ trivial) fun _ db n => ⟨forall_mem_singleton.2 .leave, ?_⟩
      exact harmless_cancelOpenAccountRequests (fun id => .removed) .closeFor
  | createInvite c org role tokenHash expiresAt =>
    unfold route createInvite
    refine harmless_requireOrgRole hG fun _ => ?_
    cases role with
    | none => exact hG _ trivial
    | some role => exact fun db n => ⟨forall_mem_singleton.2 .invite, hok⟩
  | revokeInvite c org id =>
    unfold route revokeInvite
    refine harmless_requireOrgRole hG fun _ db n => ?_
    dsimp only
    split
    · exact ⟨forall_mem_singleton.2 .revoke, hok⟩
    · exact ⟨forall_mem_nil _, hG _ trivial⟩
  | requestAccount c org body =>
    obtain ⟨p, hp, h⟩ := requestAccount_parts sealWith c org body
    dsimp only [route]
    rw [hp]
    exact harmless_requireInvestor hG h
  | cancelAccountRequest c org id =>
    unfold route cancelAccountRequest
    refine harmless_requireInvestor hG fun db => ?_
    dsimp only
    split
    · exact hG _ trivial
    · refine harmless_ite (hG _ trivial) fun _ => ?_
      exact harmless_auto (fun _ w hw => mem_singleton.1 hw ▸ .cancel) hok (hG _ trivial)
  | fulfilRequest c org id body =>
    unfold route fulfilRequest
    refine harmless_requireOrgRole hG fun _ => ?_
    dsimp only
    split
    · exact hG _ trivial
    · refine harmless_attempt hG fun server => harmless_attempt hG fun _ => harmless_openRequest hG fun r db₁ => ?_
      refine harmless_ite (hG _ trivial) fun _ db₂ => harmless_ite (hG _ trivial) fun _ => ?_
      split
      · exact harmless_linkAccount hG .owner (harmless_exec .fulfil hok (hG _ trivial))
      · exact harmless_exec .fulfil hok (hG _ trivial)
  | rejectRequest c org id note =>
    unfold route rejectRequest
    refine harmless_requireOrgRole hG fun _ => harmless_attempt hG fun _ => harmless_openRequest hG fun r => ?_
    exact harmless_auto (fun _ w hw => mem_singleton.1 hw ▸ .reject) hok (hG _ trivial)
  | logoutEverywhere c =>
    exact harmless_requireUser hG (harmless_endSessions (.endSessions rfl) (.closeForUser rfl))
  | changePassword c refusal | changeMpin c refusal =>
    exact harmless_requireUser hG (harmless_gate hG (harmless_endSessions (.endSessions rfl) (.closeForUser rfl)))
  | resetMpin c refusal =>
    exact harmless_requireHalfSession hG
      (harmless_gate hG (harmless_endSessions (.endSessions rfl) (.closeForUser rfl)))
  | handshake h =>
    unfold route websocketEndpoint
    refine harmless_ite (hG _ trivial) fun _ => ?_
    split
    · exact hG _ trivial
    · split
      · exact hG _ trivial
      · refine fun db₁ => harmless_ite (hG _ trivial) fun _ db₂ => ?_
        dsimp only
        split
        · exact hG _ trivial
        · exact harmless_ite (hG _ trivial) fun _ => .connect
  | configure c => exact fun db n => ⟨forall_mem_singleton.2 .config, hok⟩

end Harmless

end Members
