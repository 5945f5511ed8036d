import CopyTrading.Members.Admins
import CopyTrading.Members.Feed

/-!
# Members.Sockets — the feed reaches only entitled sockets

Where nothing is taken from a user while a handshake of theirs is in progress, and no one with a socket becomes an
investor, each registered socket is entitled, or doomed: a close that is to come, or under way, reaches it
(`Guarded`). When no request is in progress there is no such close left.
-/

namespace Members

open ReadCommitted Function List Option

variable {k : Socket}

/-! ### The invariant -/

/-- A close that is to come (`none`), or under way, reaches the socket. -/
def Reaches (p : Prog) (o : Option Closing) (k : Socket) : Prop :=
  (p = .done (.closeFor k.who) ∧ ∀ c, o = some c → k.id ∈ c.targets) ∨
  (p = .done (.closeForUser k.who.user) ∧ ∀ c, o = some c → k.id ∈ c.targets ∨ k.who.org ∈ c.orgs)

/-- The socket waits for session `i`. -/
def Feed.Dooms (f : Feed) (i : ℕ) (k : Socket) : Prop :=
  ∃ ss, f.sys.sess i = some ss ∧ Reaches ss.prog (f.closing i) k

structure Feed.Guarded (f : Feed) : Prop where
  governed : Governed Db.put feedSpec Reply.pending feedRely feedPost f.sys
  commits : ∀ i ss, f.sys.sess i = some ss → Commits Told ss.prog ss.writes
  keys : ∀ k ∈ f.sockets, k.who.org ∈ f.orgs
  owned : ∀ i, f.closing i ≠ none → f.closes i = true
  safe : ∀ k ∈ f.sockets, k.Entitled f.sys.db ∨ ∃ i, f.Dooms i k

namespace Feed

variable {f : Feed} {i : ℕ} {g : Feed} {s : Sys} {sealWith : String → String} {a : FeedAction}

theorem Dooms.closes (h : f.Dooms i k) : f.closes i = true := by
  obtain ⟨ss, hss, h⟩ := h
  unfold Feed.closes
  rcases h with ⟨hp, -⟩ | ⟨hp, -⟩
  · rw [hss, map_some, hp]
  · rw [hss, map_some, hp]

/-- What session `i` dooms depends on the session and on its close. -/
theorem Dooms.of_eq (h : f.Dooms i k) (hs : g.sys.sess i = f.sys.sess i) (hc : g.closing i = f.closing i) :
    g.Dooms i k := by
  unfold Feed.Dooms
  rw [hs, hc]
  exact h

/-- A step that leaves the committed state alone is borne by all. -/
theorem borne_of_eq {a : Action Request} {s' : Sys} (h : s'.db = s.db) : Borne Reply.pending feedRely a s s' := by
  intro j ss _ _ _
  rw [h]
  unfold feedRely
  split
  · exact ⟨fun h => h, fun h => h⟩
  · exact trivial

theorem sess_finish_ne {j : ℕ} (h : j ≠ i) : (f.finish i).sys.sess j = f.sys.sess j := update_of_ne h _ _

theorem closing_finish_ne {j : ℕ} (h : j ≠ i) : (f.finish i).closing j = f.closing j := update_of_ne h _ _

theorem sess_finish_self : (f.finish i).sys.sess i = none := update_self _ _ _

section

variable (h : f.Guarded)
include h

/-- Session `i` is over; no socket waits for it. -/
theorem Guarded.finish (sealWith : String → String) (hd : ∀ k ∈ f.sockets, ¬ f.Dooms i k) :
    (f.finish i).Guarded := by
  have hsess : ∀ j ss, (f.finish i).sys.sess j = some ss → j ≠ i ∧ f.sys.sess j = some ss := by
    intro j ss hj
    have hne : j ≠ i := by
      rintro rfl
      rw [sess_finish_self] at hj
      cases hj
    exact ⟨hne, sess_finish_ne hne ▸ hj⟩
  refine ⟨?_, fun j ss hj => h.commits j ss (hsess j ss hj).2, h.keys, fun j hj => ?_, fun k hk => ?_⟩
  · exact h.governed.fire (routesMeet_feed sealWith) (a := .drop i) nofun rfl (borne_of_eq rfl)
  · have hne : j ≠ i := by
      rintro rfl
      exact hj (update_self _ _ _)
    have hown := h.owned j (closing_finish_ne hne ▸ hj)
    unfold Feed.closes at hown ⊢
    rwa [sess_finish_ne hne]
  · rcases h.safe k hk with hent | ⟨j, hdoom⟩
    · exact .inl hent
    · have hne : j ≠ i := by
        rintro rfl
        exact hd k hk hdoom
      exact .inr ⟨j, hdoom.of_eq (sess_finish_ne hne) (closing_finish_ne hne)⟩

theorem Guarded.start (sealWith : String → String) {q : Request}
    (hf : ReadCommitted.fire Db.put (route sealWith) (.start i q) f.sys = some s) :
      Guarded { f with sys := s } := by
  have hg := h.governed.fire (routesMeet_feed sealWith) (fun _ _ _ => trivial) hf
  simp only [ReadCommitted.fire] at hf
  split at hf
  · next hn =>
    cases hf
    have hne : ∀ {j}, f.closes j = true → j ≠ i := by
      rintro j hj rfl
      unfold Feed.closes at hj
      rw [hn] at hj
      cases hj
    refine ⟨hg (borne_of_eq rfl), fun j ss hj => ?_, h.keys, fun j hj => ?_, fun k hk => ?_⟩
    · simp only [Sys.put, update_apply] at hj
      split_ifs at hj
      · cases hj
        exact commits_route sealWith q
      · exact h.commits j ss hj
    · have hown := h.owned j hj
      have hji := hne hown
      unfold Feed.closes at hown ⊢
      rwa [show (f.sys.put i _).sess j = f.sys.sess j from update_of_ne hji _ _]
    · rcases h.safe k hk with hent | ⟨j, hdoom⟩
      · exact .inl hent
      · exact .inr ⟨j, hdoom.of_eq (update_of_ne (hne hdoom.closes) _ _) rfl⟩
  · cases hf

/-- **A statement**: whose socket is not entitled after it is told by the program that goes on. -/
theorem Guarded.run (sealWith : String → String)
    (hf : ReadCommitted.fire Db.put (route sealWith) (.run i) f.sys = some s)
    (hb : Borne Reply.pending feedRely (.run i) f.sys s) (hw : KeepsWatchers f.sockets f.sys.db s.db) :
    Guarded { f with sys := s } := by
  have hg := h.governed.fire (routesMeet_feed sealWith) (fun _ _ _ => trivial) hf hb
  simp only [ReadCommitted.fire] at hf
  split at hf
  · cases hf
  · next ss hss =>
    obtain ⟨p, ws, hsess, hcom, hdb⟩ := (h.commits i ss hss).runSession hf
    -- a session that runs on does not close yet
    have hne : ∀ {j}, f.closes j = true → j ≠ i := by
      rintro j hj rfl
      unfold Feed.closes at hj
      rw [hss, map_some] at hj
      obtain ⟨req, prog, vs⟩ := ss
      cases prog with
      | done a => cases hf
      | _ => cases hj
    have hother : ∀ {j}, j ≠ i → s.sess j = f.sys.sess j := fun hji => by rw [hsess, update_of_ne hji]
    refine ⟨hg, fun j ss' hj => ?_, h.keys, fun j hj => ?_, fun k hk => ?_⟩
    · by_cases hji : j = i
      · subst hji
        dsimp only at hj
        rw [hsess, update_self] at hj
        cases hj
        exact hcom
      · exact h.commits j ss' (hother hji ▸ hj)
    · have hown := h.owned j hj
      unfold Feed.closes at hown ⊢
      dsimp only
      rwa [hother (hne (h.owned j hj))]
    · rcases h.safe k hk with hent | ⟨j, hdoom⟩
      · by_cases hent' : k.Entitled s.db
        · exact .inl hent'
        · refine .inr ⟨i, ⟨ss.req, p, ws⟩, by dsimp only; rw [hsess, update_self], ?_⟩
          have hnew : ∀ c, f.closing i = some c → False := fun c hc =>
            hne (h.owned i (by rw [hc]; exact some_ne_none c)) rfl
          rcases hdb with hdb | ⟨vs, hdb, htold⟩
          · exact absurd (hdb ▸ hent) hent'
          · by_cases hmay : s.db.mayWatch k.who = true
            · have hver : s.db.sessionVersion k.who.user ≠ f.sys.db.sessionVersion k.who.user := fun he =>
                hent' ⟨hmay, he.trans hent.2⟩
              rw [hdb] at hver
              exact .inr ⟨htold.2 _ (endSessions_of_view hver), fun c hc => (hnew c hc).elim⟩
            · refine .inl ⟨htold.1 _ ?_, fun c hc => (hnew c hc).elim⟩
              obtain ⟨m, hm, -⟩ := (any_eq_true _ _).1 hent.1
              refine leave_of_view (by rw [hm]; rfl)
                ((congrArg (fun d => d.memberships.find k.who) hdb).symm.trans ?_)
              cases hfind : s.db.memberships.find k.who with
              | none => rfl
              | some m' =>
                refine absurd ?_ hmay
                have hrole := hw k hk hent.1
                unfold Db.mayWatch
                rw [hfind] at hrole ⊢
                exact hrole
      · exact .inr ⟨j, hdoom.of_eq (hother (hne hdoom.closes)) rfl⟩

/-- Fewer sockets. -/
theorem Guarded.filter (P : Socket → Bool) : Guarded { f with sockets := f.sockets.filter P } :=
  ⟨h.governed, h.commits, fun k hk => h.keys k (mem_of_mem_filter hk), h.owned,
    fun k hk => h.safe k (mem_of_mem_filter hk)⟩

/-- An accepted handshake is entitled when it is registered. -/
theorem Guarded.register (sealWith : String → String) (hf : f.register i = some g) :
    g.Guarded := by
  unfold Feed.register at hf
  split at hf
  · next hs who ws hss =>
    cases hf
    have hnot : f.closes i = false := by
      unfold Feed.closes
      rw [hss]
      rfl
    have hfin := h.finish sealWith (i := i) fun k _ hd => by rw [hd.closes] at hnot; cases hnot
    have hpost := h.governed.follows i _ hss rfl _ _ ⟨.refl, le_rfl, trivial⟩ who rfl
    refine ⟨hfin.governed, hfin.commits, fun k hk => ?_, hfin.owned, fun k hk => ?_⟩
    · rcases mem_append.1 hk with hk | hk
      · dsimp only
        split_ifs
        · exact h.keys k hk
        · exact mem_append_left _ (h.keys k hk)
      · rw [mem_singleton.1 hk]
        dsimp only
        split_ifs with hin
        · exact hin
        · exact mem_append_right _ (mem_singleton_self _)
    · rcases mem_append.1 hk with hk | hk
      · exact (hfin.safe k hk).imp_right fun ⟨j, hd⟩ => ⟨j, hd.of_eq rfl rfl⟩
      · rw [mem_singleton.1 hk]
        exact .inl hpost
  · cases hf

end

theorem mem_socketsOf (hk : k ∈ f.sockets) : k.id ∈ f.socketsOf k.who :=
  mem_map.2 ⟨k, mem_filter.2 ⟨hk, by simp⟩, rfl⟩

/-- The close of session `i` goes on: what it reaches is still to be reached, or gone. -/
theorem Guarded.advance (h : f.Guarded) {ss : Session Db Write Lock Reply Request} (hss : f.sys.sess i = some ss)
    {sockets : List Socket} {c : Closing} (hsub : ∀ k ∈ sockets, k ∈ f.sockets) (hi : f.closes i = true)
    (hd : ∀ k ∈ sockets, Reaches ss.prog (f.closing i) k → Reaches ss.prog (some c) k) :
    Guarded { f with sockets := sockets, closing := update f.closing i (some c) } := by
  refine ⟨h.governed, h.commits, fun k hk => h.keys k (hsub k hk), fun j hj => ?_, fun k hk => ?_⟩
  · by_cases hji : j = i
    · exact hji ▸ hi
    · exact h.owned j fun hn => hj ((update_of_ne hji _ _).trans hn)
  · refine (h.safe k (hsub k hk)).imp_right fun ⟨j, hdoom⟩ => ⟨j, ?_⟩
    by_cases hji : j = i
    · subst hji
      obtain ⟨ss', hss', hreach⟩ := hdoom
      obtain rfl : ss = ss' := some.inj (hss.symm.trans hss')
      refine ⟨ss, hss, ?_⟩
      dsimp only
      rw [update_self]
      exact hd k hk hreach
    · exact hdoom.of_eq rfl (update_of_ne hji _ _)

/-- **A close**: it begins with all sockets it has to reach, and each of its steps reaches one or keeps it in
view. -/
theorem Guarded.close (h : f.Guarded) (sealWith : String → String) (hf : f.close i = some g) : g.Guarded := by
  unfold Feed.close at hf
  split at hf
  · next q a ws hss =>
    split at hf
    · obtain ⟨c, hbegin, rfl⟩ := map_eq_some_iff.1 hf
      have hi : f.closes i = true := by
        unfold Feed.closes
        rw [hss]
        cases a <;> first | rfl | cases hbegin
      refine h.advance hss (fun k hk => hk) hi fun k hk hreach => ?_
      rcases hreach with ⟨hp, -⟩ | ⟨hp, -⟩
      · cases hp
        refine .inl ⟨rfl, fun c' hc' => ?_⟩
        rw [← some.inj hc', ← some.inj hbegin]
        exact mem_socketsOf hk
      · cases hp
        refine .inr ⟨rfl, fun c' hc' => .inr ?_⟩
        rw [← some.inj hc', ← some.inj hbegin]
        exact h.keys k hk
    · next orgs id ids hc =>
      cases hf
      refine h.advance hss (fun k hk => mem_of_mem_filter hk) (h.owned i (by rw [hc]; nofun)) fun k hk hreach => ?_
      have hid : k.id ≠ id := by simpa using (mem_filter.1 hk).2
      rcases hreach with ⟨hp, hin⟩ | ⟨hp, hin⟩
      · refine .inl ⟨hp, fun c' hc' => some.inj hc' ▸ ?_⟩
        exact (mem_cons.1 (hin _ hc)).resolve_left hid
      · refine .inr ⟨hp, fun c' hc' => some.inj hc' ▸ ?_⟩
        exact (hin _ hc).imp_left fun hin => (mem_cons.1 hin).resolve_left hid
    · next org orgs hc =>
      split at hf
      · cases hf
        refine h.advance hss (fun k hk => hk) (h.owned i (by rw [hc]; nofun)) fun k hk hreach => ?_
        rcases hreach with ⟨hp, hin⟩ | ⟨hp, hin⟩
        · cases hin _ hc
        · cases hp
          refine .inr ⟨rfl, fun c' hc' => some.inj hc' ▸ ?_⟩
          rcases mem_cons.1 ((hin _ hc).resolve_left not_mem_nil) with horg | horg
          · refine .inl ?_
            rw [← horg]
            exact mem_socketsOf hk
          · exact .inr horg
      · cases hf
    · next hc =>
      cases hf
      refine h.finish sealWith fun k hk ⟨ss', hss', hreach⟩ => ?_
      rcases hreach with ⟨hp, hin⟩ | ⟨hp, hin⟩
      · cases hin _ hc
      · exact (hin _ hc).elim not_mem_nil not_mem_nil
  · cases hf

/-- **One step.** -/
theorem Guarded.step (h : f.Guarded)
    (hc : Considerate sealWith a f) (hf : fire sealWith a f = some g) : g.Guarded := by
  cases a with
  | request a =>
    cases a with
    | drop i =>
      simp only [Feed.fire] at hf
      split_ifs at hf with hi
      cases hf
      exact h.finish sealWith fun k _ hd => hi hd.closes
    | start i q =>
      obtain ⟨s, hs, rfl⟩ := map_eq_some_iff.1 hf
      exact h.start sealWith hs
    | run i =>
      obtain ⟨s, hs, rfl⟩ := map_eq_some_iff.1 hf
      exact h.run sealWith hs (hc.1.2 s hs) (hc.2 s hs)
  | register i => exact h.register sealWith hf
  | close i => exact h.close sealWith hf
  | disconnect id =>
    cases hf
    exact h.filter _

theorem guarded_init (db : Db) (n : ℕ) : (Feed.init db n).Guarded where
  governed := governed_init trivial
  commits := nofun
  keys _ hk := absurd hk not_mem_nil
  owned _ hi := absurd rfl hi
  safe _ hk := absurd hk not_mem_nil

/-- No request and no handshake is in progress. -/
def Quiet (f : Feed) : Prop := ∀ i ss, f.sys.sess i = some ss → ss.busy Reply.pending = false

/-- **The feed reaches only entitled sockets**, if no commit ends a user's sessions, removes them or makes them an
investor while a handshake of theirs is in progress, and no one with a socket becomes an investor. -/
theorem sockets_entitled (sealWith : String → String) {db : Db} {n : ℕ} {f : Feed}
    (h : Machine.Run (fire sealWith) (Considerate sealWith) (init db n) f) (hq : f.Quiet) {k : Socket}
    (hk : k ∈ f.sockets) : k.Entitled f.sys.db := by
  have hg : f.Guarded := h.invariant (guarded_init db n) fun _ _ _ hc hg hf => hg.step hc hf
  rcases hg.safe k hk with hent | ⟨i, ss, hss, hcase⟩
  · exact hent
  · have hidle := hq i ss hss
    unfold Session.busy at hidle
    rcases hcase with ⟨hp, -⟩ | ⟨hp, -⟩
    · rw [hp] at hidle
      cases hidle
    · rw [hp] at hidle
      cases hidle

/-! ### Runs -/

variable {N : ℕ}

theorem sess_none_finish (h : ∀ j, N ≤ j → f.sys.sess j = none) : ∀ j, N ≤ j → (f.finish i).sys.sess j = none := by
  intro j hj
  by_cases hji : j = i
  · rw [hji]
    exact sess_finish_self
  · rw [sess_finish_ne hji]
    exact h j hj

/-- Sessions that are never started are not there. -/
theorem sess_none_step
    (ha : ∀ i q, a = .request (.start i q) → i < N) (h : ∀ j, N ≤ j → f.sys.sess j = none)
    (hf : fire sealWith a f = some g) : ∀ j, N ≤ j → g.sys.sess j = none := by
  cases a with
  | request a =>
    cases a with
    | drop i =>
      simp only [Feed.fire] at hf
      split_ifs at hf
      cases hf
      exact sess_none_finish h
    | start i q =>
      obtain ⟨s, hs, rfl⟩ := map_eq_some_iff.1 hf
      refine sess_none_fire (fun j q' he => ?_) h hs
      cases he
      exact ha i q rfl
    | run i =>
      obtain ⟨s, hs, rfl⟩ := map_eq_some_iff.1 hf
      exact sess_none_fire (fun _ _ he => by cases he) h hs
  | register i =>
    simp only [Feed.fire, Feed.register] at hf
    split at hf
    · cases hf
      exact sess_none_finish h
    · cases hf
  | close i =>
    simp only [Feed.fire, Feed.close] at hf
    split at hf
    · split at hf
      · obtain ⟨c, -, rfl⟩ := map_eq_some_iff.1 hf
        exact h
      · exact some.inj hf ▸ h
      · split at hf
        · exact some.inj hf ▸ h
        · cases hf
      · exact some.inj hf ▸ sess_none_finish h
    · cases hf
  | disconnect id => exact some.inj hf ▸ h

/-- The sessions of the run are below `N`. -/
def below (N : ℕ) : FeedAction → Bool
  | .request (.start i _) => i < N
  | _ => true

theorem below_start (h : below N a = true) : ∀ i q, a = .request (.start i q) → i < N := by
  rintro i q rfl
  exact of_decide_eq_true h

instance (q : Request) (db db' : Db) : Decidable (feedRely q db db') := by
  unfold feedRely
  split <;> infer_instance

instance (sockets : List Socket) (db db' : Db) : Decidable (KeepsWatchers sockets db db') := by
  unfold KeepsWatchers
  infer_instance

/-- `Considerate`, computed. -/
def considerate (sealWith : String → String) (N : ℕ) (a : FeedAction) (f : Feed) : Bool :=
  below N a && match a with
  | .request a =>
    polite Db.put (route sealWith) Reply.pending (fun q a b => Decidable.decide (feedRely q a b)) N a f.sys &&
    (ReadCommitted.fire Db.put (route sealWith) a f.sys).all fun s' =>
      Decidable.decide (KeepsWatchers f.sockets f.sys.db s'.db)
  | _ => true

theorem considerate_sound (hs : ∀ j, N ≤ j → f.sys.sess j = none)
    (h : considerate sealWith N a f = true) : Considerate sealWith a f := by
  cases a with
  | request a =>
    obtain ⟨-, h⟩ := Bool.and_eq_true_iff.1 h
    obtain ⟨hp, hw⟩ := Bool.and_eq_true_iff.1 h
    refine ⟨polite_sound (fun _ _ _ => of_decide_eq_true) hs hp, fun s' hf => ?_⟩
    rw [hf, all_some] at hw
    exact of_decide_eq_true hw
  | _ => exact trivial

/-- `Quiet`, for the sessions below `N`. -/
def quietBelow (N : ℕ) (f : Feed) : Bool :=
  (List.range N).all fun j => (f.sys.sess j).all fun ss => !ss.busy Reply.pending

theorem quiet_of_below (hs : ∀ j, N ≤ j → f.sys.sess j = none) (h : quietBelow N f = true) : f.Quiet := by
  intro i ss hss
  have hi : i < N := by
    by_contra hle
    rw [hs i (by omega)] at hss
    cases hss
  have hthis := all_eq_true.1 h i (mem_range.2 hi)
  rw [hss, all_some] at hthis
  simpa using hthis

/-- A computed run that ends with no request in progress. -/
theorem exists_feedRun (sealWith : String → String) (N : ℕ) (chk : FeedAction → Feed → Bool)
    {ok : FeedAction → Feed → Prop} (hb : ∀ a f, chk a f = true → below N a = true)
    (hc : ∀ a f, (∀ j, N ≤ j → f.sys.sess j = none) → chk a f = true → ok a f) (as : List FeedAction)
      (db : Db) (n : ℕ)
    {P : Feed → Prop} [DecidablePred P]
    (h : ((Machine.fireAll (fire sealWith) chk as (init db n)).any fun f =>
      Decidable.decide (quietBelow N f = true ∧ P f)) = true) :
    ∃ f, Machine.Run (fire sealWith) ok (init db n) f ∧ f.Quiet ∧ P f := by
  obtain ⟨f, hrun, hquiet, hp⟩ : ∃ f, Machine.Run (fire sealWith) (fun a f => chk a f = true) (init db n) f ∧
      quietBelow N f = true ∧ P f := Machine.exists_of_fireAll (fun _ _ h => h) as _ h
  have hnone : ∀ j, N ≤ j → f.sys.sess j = none :=
    hrun.invariant (P := fun f => ∀ j, N ≤ j → f.sys.sess j = none) (fun _ _ => rfl)
      fun a f g ha hs hf => sess_none_step (below_start (hb a f ha)) hs hf
  refine ⟨f, hrun.strengthen (P := fun f => ∀ j, N ≤ j → f.sys.sess j = none) (fun _ _ => rfl) ?_ ?_,
    quiet_of_below hnone hquiet, hp⟩
  · exact fun a f g ha hs hf => sess_none_step (below_start (hb a f ha)) hs hf
  · exact fun a f ha hs => hc a f hs ha

/-- The handshake of a signed-in user. -/
def hello (user org : ℕ) : Request := .handshake ⟨true, some (signedIn user), some org⟩

/-- A request of session `i` and its statements. -/
def serveFeed (i : ℕ) (q : Request) (k : ℕ) : List FeedAction := (serve i q k).map .request

/-- Two viewers open sockets, and one of them is removed: their socket is closed, the other one stays. -/
theorem sockets_entitled_removal : ∃ f, Machine.Run (fire id) (Considerate id) (init smallOrg 10) f ∧ f.Quiet ∧
    f.sockets = [⟨0, ⟨1, 2⟩, 0⟩] ∧ ∀ k ∈ f.sockets, k.Entitled f.sys.db := by
  obtain ⟨f, hrun, hquiet, hp⟩ := exists_feedRun id 3 (considerate id 3)
    (fun _ _ h => (Bool.and_eq_true_iff.1 h).1) (fun _ _ => considerate_sound)
    ((serveFeed 0 (hello 2 1) 2).append (.register 0 :: (serveFeed 1 (hello 3 1) 2).append
      (.register 1 :: (serveFeed 2 (.removeMember (signedIn 1) 1 3) 9).append [.close 2, .close 2, .close 2])))
    smallOrg 10 (P := fun f => f.sockets = [⟨0, ⟨1, 2⟩, 0⟩]) (by decide)
  exact ⟨f, hrun, hquiet, hp, fun k hk => sockets_entitled id hrun hquiet hk⟩

/-- **An investor at the feed**: viewer 2 has a socket and is made an investor; the socket stays. -/
theorem investor_keeps_socket : ∃ f, Machine.Run (fire id) (fun _ _ => True) (init smallOrg 10) f ∧ f.Quiet ∧
    ∃ k ∈ f.sockets, f.sys.db.memberships.find k.who = some ⟨⟨1, 2⟩, .investor, 2⟩ ∧ ¬ k.Entitled f.sys.db :=
  exists_feedRun id 2 (fun a _ => below 2 a) (fun _ _ h => h) (fun _ _ _ _ => trivial)
    ((serveFeed 0 (hello 2 1) 2).append
      (.register 0 :: serveFeed 1 (.patchMember (signedIn 1) 1 2 (some .investor)) 8))
    smallOrg 10 (by decide)

end Feed

end Members
