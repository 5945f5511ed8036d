import CopyTrading.Members.Programs

/-!
# Members.Feed — the sockets of the org feed

`EventBroadcaster` over the members' tables.  A handshake checks session and membership once and is registered
later; a removed member's sockets and, at the end of a user's sessions, all of theirs are closed after the commit,
one by one.  A member who becomes an investor keeps their sockets.  A socket remembers the session version it was
authorised with, which the source has in the cookie only.
-/

namespace Members

open List

variable {ws : List Write}

open ReadCommitted Function

/-- A registered socket. -/
structure Socket where
  id : ℕ
  who : Who
  version : ℕ
  deriving DecidableEq

/-- What is left of a `close_for` or a `close_for_user`: orgs to look at and sockets to close. -/
structure Closing where
  orgs : List ℕ
  targets : List ℕ

/-- `EventBroadcaster`: the keys of `connections` and the sockets under them, the closes under way by the session
that runs them, beside the database. -/
structure Feed where
  sys : Sys
  orgs : List ℕ
  sockets : List Socket
  closing : ℕ → Option Closing
  next : ℕ

/-- The answer is still to be acted on. -/
def Reply.pending : Reply → Bool
  | .closeFor _ | .closeForUser _ | .connect _ => true
  | _ => false

/-- What happens next to the feed. -/
inductive FeedAction where
  /-- A request begins, runs a statement or loses its connection. -/
  | request (a : Action Request)
  /-- `connect`, once the socket is accepted. -/
  | register (i : ℕ)
  /-- `close_for` or `close_for_user` goes on by one socket or one org. -/
  | close (i : ℕ)
  /-- The client goes away, or a send to it fails. -/
  | disconnect (id : ℕ)

namespace Feed

/-- The sockets of a user in an org. -/
def socketsOf (f : Feed) (who : Who) : List ℕ := (f.sockets.filter fun k => k.who = who).map Socket.id

/-- Session `i` is over. -/
def finish (f : Feed) (i : ℕ) : Feed :=
  { f with sys := (f.sys.release i).put i none, closing := update f.closing i none }

/-- Session `i` has committed what it closes sockets for. -/
def closes (f : Feed) (i : ℕ) : Bool :=
  match (f.sys.sess i).map Session.prog with
  | some (.done (.closeFor _)) | some (.done (.closeForUser _)) => true
  | _ => false

/-- `connect` of an accepted handshake. -/
def register (f : Feed) (i : ℕ) : Option Feed :=
  match f.sys.sess i with
  | some ⟨.handshake h, .done (.connect who), _⟩ =>
    some { f.finish i with
      orgs := if who.org ∈ f.orgs then f.orgs else f.orgs ++ [who.org]
      sockets := f.sockets ++ [⟨f.next, who, (h.session.map Caller.version).getD 0⟩]
      next := f.next + 1 }
  | _ => none

/-- The targets of a close, when it begins. -/
def begin (f : Feed) : Reply → Option Closing
  | .closeFor who => some ⟨[], f.socketsOf who⟩
  | .closeForUser _ => some ⟨f.orgs, []⟩
  | _ => none

/-- A close under way: the next socket is closed and dropped, or the next org is looked at. -/
def close (f : Feed) (i : ℕ) : Option Feed :=
  match f.sys.sess i with
  | some ⟨_, .done a, _⟩ =>
    match f.closing i with
    | none => (f.begin a).map fun c => { f with closing := update f.closing i (some c) }
    | some ⟨orgs, id :: ids⟩ =>
      some { f with
        sockets := f.sockets.filter fun k => k.id ≠ id
        closing := update f.closing i (some ⟨orgs, ids⟩) }
    | some ⟨org :: orgs, []⟩ =>
      match a with
      | .closeForUser user =>
        some { f with closing := update f.closing i (some ⟨orgs, f.socketsOf ⟨org, user⟩⟩) }
      | _ => none
    | some ⟨[], []⟩ => some (f.finish i)
  | _ => none

/-- One step.  A request that has committed closes its sockets: its connection is of no more use. -/
def fire (sealWith : String → String) (a : FeedAction) (f : Feed) : Option Feed :=
  match a with
  | .request (.drop i) => if f.closes i then none else some (f.finish i)
  | .request a => (ReadCommitted.fire Db.put (route sealWith) a f.sys).map fun s => { f with sys := s }
  | .register i => f.register i
  | .close i => f.close i
  | .disconnect id => some { f with sockets := f.sockets.filter fun k => k.id ≠ id }

/-- The feed before the first request. -/
def init (db : Db) (n : ℕ) : Feed := ⟨.init db n, [], [], fun _ => none, 0⟩

end Feed

/-! ### Entitlement -/

/-- A member of the org who is no investor. -/
def Db.mayWatch (db : Db) (who : Who) : Bool := (db.memberships.find who).any fun m => m.role ≠ .investor

/-- The socket's user may watch the org, and their sessions have not been ended since it was authorised. -/
def Socket.Entitled (db : Db) (k : Socket) : Prop :=
  db.mayWatch k.who = true ∧ db.sessionVersion k.who.user = some k.version

instance (db : Db) (k : Socket) : Decidable (k.Entitled db) := by unfold Socket.Entitled; infer_instance

/-- A handshake bears no end of its user's sessions, and no change that takes the org from them. -/
def feedRely (q : Request) (db db' : Db) : Prop :=
  match q with
  | .handshake ⟨_, some c, some org⟩ =>
    (db.mayWatch ⟨org, c.user⟩ = true → db'.mayWatch ⟨org, c.user⟩ = true) ∧
    (db.sessionVersion c.user = some c.version → db'.sessionVersion c.user = some c.version)
  | _ => True

/-- No one who has a socket becomes an investor. -/
def KeepsWatchers (sockets : List Socket) (db db' : Db) : Prop :=
  ∀ k ∈ sockets, db.mayWatch k.who = true → (db'.memberships.find k.who).all (fun m => m.role ≠ .investor) = true

/-- **The condition on a step.** -/
def Feed.Considerate (sealWith : String → String) : FeedAction → Feed → Prop
  | .request a, f => Polite Db.put (route sealWith) Reply.pending feedRely (fun _ => True) a f.sys ∧
    ∀ s', ReadCommitted.fire Db.put (route sealWith) a f.sys = some s' → KeepsWatchers f.sockets f.sys.db s'.db
  | _, _ => True

/-! ### What a commit takes -/

variable {db db' : Db} {n n' : ℕ} {H : Set Lock} {k : Socket} {who : Who}

theorem leave_of_view (h : (db.memberships.find who).isSome = true)
    (hv : (view ws db).memberships.find who = none) : .leave who ∈ ws := by
  induction ws generalizing db with
  | nil =>
    rw [show (view [] db) = db from rfl] at hv
    rw [hv] at h
    cases h
  | cons w ws ih =>
    by_cases hw : w = .leave who
    · exact hw ▸ mem_cons_self
    · refine mem_cons_of_mem w (ih ?_ hv)
      cases w with
      | join m =>
        dsimp only [Db.put]
        rw [Table.find_insert]
        split_ifs
        · rfl
        · exact h
      | role who' role =>
        dsimp only [Db.put]
        rw [Table.find_modify]
        split_ifs
        · rw [Option.isSome_map]
          exact h
        · exact h
      | leave who' =>
        dsimp only [Db.put]
        rw [Table.find_delete, if_neg]
        · exact h
        · rintro hmem
          exact hw (by rw [mem_singleton.1 hmem])
      | _ => exact h

theorem endSessions_of_view {user : ℕ} (h : (view ws db).sessionVersion user ≠ db.sessionVersion user) :
    .endSessions user ∈ ws := by
  induction ws generalizing db with
  | nil => cases h rfl
  | cons w ws ih =>
    by_cases hw : w = .endSessions user
    · exact hw ▸ mem_cons_self
    · refine mem_cons_of_mem w (@ih (db.put w) ?_)
      cases w with
      | endSessions u =>
        have hne : user ≠ u := fun he => hw (by rw [he])
        rwa [show (db.put (.endSessions u)).sessionVersion user = db.sessionVersion user from update_of_ne hne _ _]
      | _ => exact h

/-- A commit that removes a member or ends sessions is followed by the close of their sockets. -/
def Told (ws : List Write) (p : Prog) : Prop :=
  (∀ who, .leave who ∈ ws → p = .done (.closeFor who)) ∧ ∀ user, .endSessions user ∈ ws →
    p = .done (.closeForUser user)

section Commits

variable {p : Prog} {ws : List Write} {c : Caller} {org : ℕ}

theorem commits_requireHalfSession (h : Commits Told p ws) : Commits Told (requireHalfSession c p) ws := by
  intro db
  dsimp only
  split_ifs
  · exact h
  · exact trivial

theorem commits_requireUser (h : Commits Told p ws) : Commits Told (requireUser c p) ws := by
  refine commits_requireHalfSession ?_
  split_ifs
  · exact h
  · exact trivial

theorem commits_requireOrgRole {min : Role} {k : Role → Prog}
    (h : ∀ role, Commits Told (k role) ws) : Commits Told (requireOrgRole c org min k) ws := by
  refine commits_requireUser fun db => ?_
  dsimp only
  split
  · exact trivial
  · split_ifs
    · exact trivial
    · exact h _

theorem commits_gate {refusal : Option (ℕ × String)} (h : Commits Told p ws) :
    Commits Told (gate refusal p) ws := by
  unfold gate
  split
  · exact trivial
  · exact h

theorem commits_lockAdmins {k : List ℕ → Prog} (h : ∀ ids, Commits Told (k ids) ws) :
    Commits Told (lockAdmins org k) ws := by
  intro db
  dsimp only
  generalize db.admins org = ms
  generalize ([] : List ℕ) = ids
  induction ms generalizing ids with
  | nil => exact h ids
  | cons m ms ih =>
    intro db n
    rw [append_nil]
    exact ih _

theorem commits_lockMember {who : Who} {k : Option Role → Prog} (h : ∀ row, Commits Told (k row) ws) :
    Commits Told (lockMember who k) ws := by
  intro db
  dsimp only
  split
  · exact h none
  · intro db n
    rw [append_nil]
    exact h _

/-- The requests that are cancelled on the way end no session and remove no one. -/
theorem commits_cancelOpenAccountRequests {a : Reply} (h : Told ws (.done a)) :
    Commits Told (cancelOpenAccountRequests who (.commit (.done a))) ws := by
  intro db
  dsimp only
  generalize db.openRequests who = ids
  induction ids generalizing ws with
  | nil => exact ⟨h, trivial⟩
  | cons id ids ih =>
    refine fun db n => ih ⟨fun who hw => h.1 who ?_, fun user hw => h.2 user ?_⟩
    all_goals
      refine (mem_append.1 hw).resolve_right fun hw => ?_
      dsimp only at hw
      split_ifs at hw
      · cases mem_singleton.1 hw
      · cases hw

theorem commits_endSessions {user : ℕ} : Commits Told (endSessions user) ws := by
  refine fun db n => ⟨⟨fun who hw => ?_, fun u hw => ?_⟩, trivial⟩
  · dsimp only at hw
    split_ifs at hw
    · cases mem_singleton.1 hw
    · cases hw
  · dsimp only at hw
    split_ifs at hw
    · cases mem_singleton.1 hw
      rfl
    · cases hw

theorem commits_removeMember {user : ℕ} : Commits Told (removeMember c org user) [] := by
  unfold removeMember
  refine commits_requireOrgRole fun _ => ?_
  split_ifs
  · exact trivial
  · refine commits_lockAdmins fun ids => commits_lockMember fun row => ?_
    split
    · exact trivial
    · split_ifs
      · exact trivial
      · refine fun db n => commits_cancelOpenAccountRequests ⟨fun who hw => ?_, fun u hw => ?_⟩
        · cases mem_singleton.1 hw
          rfl
        · cases mem_singleton.1 hw

/-- **Who is told**: every route closes the sockets of the members it removes and of the sessions it ends. -/
theorem commits_route (sealWith : String → String) (q : Request) : Commits Told (route sealWith q) [] := by
  have hrest : (∀ who, ¬ q.May (.leave who)) → (∀ user, ¬ q.May (.endSessions user)) →
      Commits Told (route sealWith q) [] := fun hl he =>
    Commits.of_harmless (fun ws p hws => ⟨fun who hw => absurd (hws _ hw) (hl who),
      fun user hw => absurd (hws _ hw) (he user)⟩) (harmless_route sealWith q) fun w hw => absurd hw not_mem_nil
  cases q with
  | removeMember c org user => exact commits_removeMember
  | logoutEverywhere c => exact commits_requireUser commits_endSessions
  | changePassword c refusal | changeMpin c refusal =>
    exact commits_requireUser (commits_gate commits_endSessions)
  | resetMpin c refusal => exact commits_requireHalfSession (commits_gate commits_endSessions)
  | _ =>
    refine hrest (fun who h => ?_) fun user h => ?_
    · cases h
    · cases h with
      | endSessions he => cases he

end Commits

/-! ### Handshakes -/

/-- The feed asks nothing of a commit but what the handshakes rely on. -/
def feedSpec : Spec Db Lock where
  I _ _ := True
  Act _ _ _ _ := True
  mono _ _ := trivial
  act_inv _ _ := trivial

/-- The version of the session that a request was made with. -/
def Request.version : Request → ℕ
  | .handshake h => (h.session.map Caller.version).getD 0
  | _ => 0

/-- An accepted handshake is entitled. -/
def feedPost (q : Request) (a : Reply) (db : Db) : Prop := ∀ who, a = .connect who →
    Socket.Entitled db ⟨0, who, q.version⟩

theorem final_pending : Final Reply.pending := by
  intro a ha
  cases a <;> first | rfl | exact ha.elim

theorem meets_websocketEndpoint {h : Handshake} :
    Meets Db.put feedSpec Reply.pending (feedRely (.handshake h)) (feedPost (.handshake h))
      (websocketEndpoint h) H []
      db n := by
  obtain ⟨origin, session, org⟩ := h
  unfold websocketEndpoint
  dsimp only
  split_ifs
  · exact meets_final final_pending trivial
  · cases hs : session.filter Caller.pin with
    | none => exact meets_final final_pending trivial
    | some c =>
      obtain ⟨rfl, -⟩ := Option.filter_eq_some_iff.1 hs
      cases org with
      | none => exact meets_final final_pending trivial
      | some org =>
        intro db₁ n₁ hc₁
        dsimp only [view_nil]
        split_ifs with hver
        · exact meets_final final_pending trivial
        · intro db₂ n₂ hc₂
          dsimp only [view_nil]
          split
          · exact meets_final final_pending trivial
          · next m hm =>
            split_ifs with hrole
            · exact meets_final final_pending trivial
            · rintro - db₃ n₃ hc₃ who hwho
              cases hwho
              have hkeeps : ∀ {H a n b n'},
                feedSpec.Change (feedRely (.handshake ⟨origin, some c, some org⟩)) H a n b n' →
                  feedRely (.handshake ⟨origin, some c, some org⟩) a b := fun hc =>
                hc.keeps (fun _ => ⟨fun h => h, fun h => h⟩)
                  (fun _ _ _ h h' => ⟨fun ha => h'.1 (h.1 ha), fun ha => h'.2 (h.2 ha)⟩) fun _ _ _ _ _ _ hr => hr
              have hmay : db₂.mayWatch ⟨org, c.user⟩ = true := by
                unfold Db.mayWatch
                rw [hm, Option.any_some]
                exact decide_eq_true hrole
              exact ⟨(hkeeps hc₃).1 hmay, (hkeeps (hc₂.trans hc₃)).2 (not_not.1 hver)⟩

theorem routesMeet_feed (sealWith : String → String) :
    RoutesMeet Db.put feedSpec Reply.pending feedRely feedPost (route sealWith) fun _ => True := by
  intro q _ db n _
  have hrest : (∀ who, ¬ q.Answers (.connect who)) →
      Meets Db.put feedSpec Reply.pending (feedRely q) (feedPost q) (route sealWith q) ∅ [] db n := by
    intro hq
    refine Meets.of_harmless (F := fun _ => True) (fun _ h => h) (fun _ _ _ => ⟨trivial, trivial⟩) ?_
      (harmless_route sealWith q) (forall_mem_nil _) trivial
    intro a db ha _ _ who he
    exact absurd (he ▸ ha) (hq who)
  cases q with
  | handshake h => exact meets_websocketEndpoint
  | _ =>
    refine hrest fun who h => ?_
    cases h with
    | final h => exact h

end Members
