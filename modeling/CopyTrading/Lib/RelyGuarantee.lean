import CopyTrading.Lib.Machine
import CopyTrading.Lib.ReadCommitted

/-!
# RelyGuarantee — requests that rely on each other

`Safe` asks a request to bear whatever sessions with other locks commit.  Here a request may rely on more: `rely q
a b` says that request `q`, while it is in progress, bears a change of the committed state from `a` to `b`.  A run
is considerate when every step is borne by all the other requests in progress.

`Meets` is the proof rule: with what it relies on, a program commits only allowed actions, and what it answers
satisfies its postcondition for as long as its answer is pending, that is, as long as something outside the
database is still to be done about it.
-/

namespace ReadCommitted

open Relation Function List Option

/-- Whether a request is in progress: an answer may still be acted on. -/
def Session.busy {D W L A Q : Type} (pending : A → Bool) (ss : Session D W L A Q) : Bool :=
  match ss.prog with
  | .done a => pending a
  | _ => true

section Considerate

variable {D W L A Q : Type} (app : W → D → D) [DecidableEq L] (route : Q → Prog D W L A)
  (pending : A → Bool) (rely : Q → D → D → Prop) {N : ℕ} {a : Action Q} {s : Sys D W L A Q}
  {chk : Q → D → D → Bool}

/-- The requests in progress, but the one that acts, bear the step. -/
def Borne (a : Action Q) (s s' : Sys D W L A Q) : Prop :=
  ∀ j ss, a ≠ .run j → s.sess j = some ss → ss.busy pending = true → rely ss.req s.db s'.db

/-- A considerate step of a request in `R`. -/
def Polite (R : Q → Prop) (a : Action Q) (s : Sys D W L A Q) : Prop :=
  (∀ i q, a = .start i q → R q) ∧ ∀ s', fire app route a s = some s' → Borne pending rely a s s'

/-- `Polite`, computed for runs with sessions below `N`. -/
def polite (chk : Q → D → D → Bool) (N : ℕ) (a : Action Q) (s : Sys D W L A Q) : Bool :=
  (match a with | .start i _ => i < N | _ => true) &&
  (fire app route a s).all fun s' => (List.range N).all fun j =>
    (match a with | .run i => i == j | _ => false) ||
    (s.sess j).all fun ss => !ss.busy pending || chk ss.req s.db s'.db

variable {app route pending rely}

/-- Sessions that are never started are not there. -/
theorem sess_none_fire {s' : Sys D W L A Q} (ha : ∀ i q, a = .start i q → i < N)
    (h : ∀ j, N ≤ j → s.sess j = none) (hf : fire app route a s = some s') : ∀ j, N ≤ j → s'.sess j = none := by
  have hput : ∀ {t : Sys D W L A Q} {i : ℕ} {o}, t.sess = s.sess → i < N →
      ∀ j, N ≤ j → (t.put i o).sess j = none := by
    intro t i o ht hi j hj
    show update t.sess i o j = none
    rw [update_of_ne (by omega), ht]
    exact h j hj
  cases a with
  | start i q =>
    simp only [fire] at hf
    split at hf
    · cases hf
      exact hput rfl (ha i q rfl)
    · cases hf
  | run i =>
    simp only [fire] at hf
    split at hf
    · cases hf
    · next ss hss =>
      have hi : i < N := by
        by_contra hle
        rw [h i (by omega)] at hss
        cases hss
      unfold runSession at hf
      split at hf
      · cases hf
      · exact some.inj hf ▸ hput rfl hi
      · dsimp only at hf
        split_ifs at hf
        exact some.inj hf ▸ hput rfl hi
      · split_ifs at hf
        exact some.inj hf ▸ hput rfl hi
      · dsimp only at hf
        split_ifs at hf
        exact some.inj hf ▸ hput rfl hi
      · exact some.inj hf ▸ hput rfl hi
      · exact some.inj hf ▸ hput rfl hi
  | drop i =>
    cases hf
    exact (forall_update_iff s.sess fun j o => N ≤ j → o = none).2 ⟨fun _ => rfl, fun j _ => h j⟩

theorem polite_start
    (hp : polite app route pending chk N a s = true) : ∀ i q, a = .start i q → i < N := by
  rintro i q rfl
  simpa using (Bool.and_eq_true_iff.1 hp).1

theorem polite_sound (hc : ∀ q a b, chk q a b = true → rely q a b)
    (hs : ∀ j, N ≤ j → s.sess j = none) (hp : polite app route pending chk N a s = true) :
    Polite app route pending rely (fun _ => True) a s := by
  refine ⟨fun _ _ _ => trivial, fun s' hf j ss hne hj hbusy => hc _ _ _ ?_⟩
  have hjN : j < N := by
    by_contra hle
    rw [hs j (by omega)] at hj
    cases hj
  have hall := (Bool.and_eq_true_iff.1 hp).2
  rw [hf, all_some] at hall
  have hthis := all_eq_true.1 hall j (mem_range.2 hjN)
  rw [hj, all_some, hbusy] at hthis
  cases a with
  | run i =>
    have hij : i ≠ j := fun he => hne (he ▸ rfl)
    simpa [hij] using hthis
  | start i q | drop i => simpa using hthis

variable (app route pending rely)

/-- A computed considerate run. -/
theorem exists_polite [∀ q a b, Decidable (rely q a b)] (N : ℕ) (as : List (Action Q)) (db : D) (n : ℕ)
    {P : Sys D W L A Q → Prop} [DecidablePred P]
    (h : ((Machine.fireAll (fire app route) (polite app route pending (fun q a b => decide (rely q a b)) N) as
      (.init db n)).any fun t => decide (P t)) = true) :
    ∃ t, Machine.Run (fire app route) (Polite app route pending rely fun _ => True) (.init db n) t ∧ P t := by
  obtain ⟨t, hrun, ht⟩ : ∃ t, Machine.Run (fire app route)
      (fun a s => polite app route pending (fun q a b => decide (rely q a b)) N a s = true) (.init db n) t ∧ P t :=
    Machine.exists_of_fireAll (fun _ _ h => h) as _ h
  exact ⟨t, hrun.strengthen (P := fun s => ∀ j, N ≤ j → s.sess j = none) (fun _ _ => rfl)
    (fun a s s' hp hs hf => sess_none_fire (polite_start hp) hs hf)
    fun a s hp hs => polite_sound (fun _ _ _ => of_decide_eq_true) hs hp, ht⟩

end Considerate

/-! ### The rule -/

namespace Spec

variable {D L : Type} (S : Spec D L) (rely : D → D → Prop) {H : Set L} {db db' : D} {n n' : ℕ}

/-- The committed state and the counter that a session with locks `H` may find later, if the others bear it in
mind. -/
structure Change (H : Set L) (db : D) (n : ℕ) (db' : D) (n' : ℕ) : Prop where
  others : ReflTransGen (fun a b => (∃ m H', Disjoint H H' ∧ S.Act m H' a b) ∧ rely a b) db db'
  le : n ≤ n'
  inv : S.I n' db'

variable {S rely}

theorem Change.trans {db'' : D} {n'' : ℕ} (h : S.Change rely H db n db' n')
    (h' : S.Change rely H db' n' db'' n'') : S.Change rely H db n db'' n'' :=
  ⟨ReflTransGen.trans h.others h'.others, h.le.trans h'.le, h'.inv⟩

/-- What every change that is borne keeps is kept. -/
theorem Change.keeps (h : S.Change rely H db n db' n') {P : D → D → Prop}
    (hr : ∀ db, P db db) (ht : ∀ a b c, P a b → P b c → P a c)
    (h1 : ∀ m H' a b, Disjoint H H' → S.Act m H' a b → rely a b → P a b) : P db db' := by
  obtain ⟨hall, -, -⟩ := h
  induction hall with
  | refl => exact hr db
  | tail _ hs ih =>
    obtain ⟨⟨m, K, hd, ha⟩, hb⟩ := hs
    exact ht _ _ _ ih (h1 m K _ _ hd ha hb)

theorem Change.mono {H' : Set L} (hH : H' ⊆ H) (h : S.Change rely H db n db' n') :
    S.Change rely H' db n db' n' := by
  refine ⟨ReflTransGen.mono (fun a b hab => ?_) _ _ h.others, h.le, h.inv⟩
  obtain ⟨⟨m, K, hd, ha⟩, hb⟩ := hab
  exact ⟨⟨m, K, hd.mono_left hH, ha⟩, hb⟩

end Spec

section Rule

variable {D W L A Q : Type} (app : W → D → D) (S : Spec D L) (pending : A → Bool)
  (rely : D → D → Prop) (post : A → D → Prop) {p : Prog D W L A} {ws : List W} {P : W → Prop}
  {F : D → Prop}

/-- **The rule.**  `Meets p H ws db n`: the program `p` of a session that holds `H`, has written `ws` and last
looked at the committed state `db` with the counter at `n` commits only allowed actions, and its pending answer
satisfies `post`. -/
def Meets : Prog D W L A → Set L → List W → D → ℕ → Prop
  | .done a, H, _, db, n => pending a = true → ∀ db' n', S.Change rely H db n db' n' → post a db'
  | .abort a, _, _, db, n => pending a = true → ∀ db' n', S.Change rely ∅ db n db' n' → post a db'
  | .select k, H, ws, db, n => ∀ db' n', S.Change rely H db n db' n' → Meets (k (view app ws db')) H ws db' n'
  | .auto e k, H, ws, db, n => ∀ db' n', S.Change rely H db n db' n' →
      S.Act (n' + 1) { l | l ∈ (e db' n').locks } db' (view app (e db' n').writes db') ∧
      Meets (k db' n') H ws (view app (e db' n').writes db') (n' + 1)
  | .lock l p, H, ws, db, n => ∀ db' n', S.Change rely H db n db' n' → Meets p (H ∪ {l}) ws db' n'
  | .exec e k, H, ws, db, n => ∀ db' n', S.Change rely H db n db' n' →
      Meets (k (view app ws db') n') (H ∪ { l | l ∈ (e (view app ws db') n').locks })
        (ws ++ (e (view app ws db') n').writes) db' (n' + 1)
  | .commit p, H, ws, db, n => ∀ db' n', S.Change rely H db n db' n' →
      S.Act n' H db' (view app ws db') ∧ Meets p ∅ [] (view app ws db') n'

variable {app S pending rely post}

/-- The rule survives what is borne. -/
theorem Meets.change {H : Set L} {db db' : D} {n n' : ℕ}
    (h : Meets app S pending rely post p H ws db n) (hc : S.Change rely H db n db' n') :
    Meets app S pending rely post p H ws db' n' := by
  cases p with
  | done a => exact fun hp db2 n2 h2 => h hp db2 n2 (hc.trans h2)
  | abort a => exact fun hp db2 n2 h2 => h hp db2 n2 ((hc.mono (Set.empty_subset H)).trans h2)
  | select k | auto e k | lock l p | exec e k | commit p =>
    exact fun db2 n2 h2 => h db2 n2 (hc.trans h2)

/-- A program all of whose writes are in `P` and all of whose answers are in `G`. -/
def Harmless (P : W → Prop) (G : A → Prop) : Prog D W L A → Prop
  | .done a => G a
  | .abort a => G a
  | .select k => ∀ db, Harmless P G (k db)
  | .auto e k => ∀ db n, (∀ w ∈ (e db n).writes, P w) ∧ Harmless P G (k db n)
  | .lock _ p => Harmless P G p
  | .exec e k => ∀ db n, (∀ w ∈ (e db n).writes, P w) ∧ Harmless P G (k db n)
  | .commit p => Harmless P G p

/-- Writes that are an allowed action whenever they are committed, as long as a fact holds that the others
leave. -/
theorem Meets.of_harmless {G : A → Prop}
    (hF : ∀ {H db n db' n'}, S.Change rely H db n db' n' → F db → F db')
    (hP : ∀ {n H db ws}, S.I n db → F db → (∀ w ∈ ws, P w) → S.Act n H db (view app ws db) ∧ F (view app ws db))
    (hG : ∀ {a db}, G a → pending a = true → F db → post a db) (hp : Harmless P G p) :
    ∀ {H ws db n}, (∀ w ∈ ws, P w) → F db → Meets app S pending rely post p H ws db n := by
  induction p with
  | done a | abort a => exact fun _ hdb hpend db' _ hc => hG hp hpend (hF hc hdb)
  | select k ih => exact fun hws hdb db' _ hc => ih _ (hp (view app _ db')) hws (hF hc hdb)
  | auto e k ih =>
    intro H ws db n hws hdb db' n' hc
    obtain ⟨hw, hk⟩ := hp db' n'
    obtain ⟨hact, hdb'⟩ := hP (S.mono (Nat.le_succ _) hc.inv) (hF hc hdb) hw
    exact ⟨hact, ih _ _ hk hws hdb'⟩
  | lock l p ih => exact fun hws hdb _ _ hc => ih hp hws (hF hc hdb)
  | exec e k ih =>
    intro H ws db n hws hdb db' n' hc
    obtain ⟨hw, hk⟩ := hp (view app ws db') n'
    refine ih _ _ hk (fun w hmem => ?_) (hF hc hdb)
    rcases mem_append.1 hmem with hmem | hmem
    · exact hws w hmem
    · exact hw w hmem
  | commit p ih =>
    intro H ws db n hws hdb db' n' hc
    obtain ⟨hact, hdb'⟩ := hP hc.inv (hF hc hdb) hws
    exact ⟨hact, ih hp (by simp) hdb'⟩

/-- The end of a transaction: more writes in `P`, the commit and the answer `a`. -/
def Tail (P : W → Prop) (a : A) : Prog D W L A → Prop
  | .select k => ∀ db, Tail P a (k db)
  | .exec e k => ∀ db n, (∀ w ∈ (e db n).writes, P w) ∧ Tail P a (k db n)
  | .commit (.done b) => b = a
  | _ => False

/-- A fact that the others leave makes what was written an allowed action, whatever the tail adds. -/
theorem Meets.of_tail {a : A} {H : Set L}
    (hF : ∀ {db n db' n'}, S.Change rely H db n db' n' → F db → F db')
    (hact : ∀ {n H' db vs}, H ⊆ H' → S.I n db → F db → (∀ v ∈ vs, P v) → S.Act n H' db (view app (ws ++ vs) db))
    (ha : pending a = true → ∀ db, post a db) (hp : Tail P a p) {db : D} {n : ℕ} (hdb : F db) :
    Meets app S pending rely post p H ws db n := by
  have hall : ∀ {H' vs db n}, H ⊆ H' → (∀ v ∈ vs, P v) → F db →
      Meets app S pending rely post p H' (ws ++ vs) db n := by
    clear hdb
    induction p with
    | done b | abort b | auto e k | lock l p => exact hp.elim
    | select k ih =>
      intro H' vs db n hH hvs hdb db' n' hc
      exact ih _ (hp (view app (ws ++ vs) db')) hH hvs (hF (hc.mono hH) hdb)
    | exec e k ih =>
      intro H' vs db n hH hvs hdb db' n' hc
      obtain ⟨hw, hk⟩ := hp (view app (ws ++ vs) db') n'
      rw [append_assoc]
      refine ih _ _ hk (hH.trans Set.subset_union_left) (fun v hv => ?_) (hF (hc.mono hH) hdb)
      rcases mem_append.1 hv with hv | hv
      · exact hvs v hv
      · exact hw v hv
    | commit q =>
      intro H' vs db n hH hvs hdb db' n' hc
      cases q with
      | done b =>
        obtain rfl : b = a := hp
        exact ⟨hact hH hc.inv (hF (hc.mono hH) hdb) hvs, fun hpend db' _ _ => ha hpend db'⟩
      | _ => exact hp.elim
  rw [← append_nil ws]
  exact hall subset_rfl (forall_mem_nil _) hdb

end Rule

/-! ### Soundness -/

section Sound

variable {D W L A Q : Type} {app : W → D → D} {S : Spec D L} {pending : A → Bool} {rely : Q → D → D → Prop}
  {post : Q → A → D → Prop} {s s' : Sys D W L A Q} {i : ℕ}

/-- Session `ss` of `s` follows the rule. -/
def Follows (app : W → D → D) (S : Spec D L) (pending : A → Bool) (rely : Q → D → D → Prop)
    (post : Q → A → D → Prop)
    (s : Sys D W L A Q) (i : ℕ) (ss : Session D W L A Q) : Prop :=
  Meets app S pending (rely ss.req) (post ss.req) ss.prog (s.held i) ss.writes s.db s.next

/-- The system invariant behind the rule. -/
structure Governed (app : W → D → D) (S : Spec D L) (pending : A → Bool) (rely : Q → D → D → Prop)
    (post : Q → A → D → Prop) (s : Sys D W L A Q) : Prop where
  inv : S.I s.next s.db
  follows : ∀ i ss, s.sess i = some ss → Follows app S pending rely post s i ss
  idle : ∀ i, s.sess i = none → s.held i = ∅

theorem governed_init {db : D} {n : ℕ} (hI : S.I n db) :
    Governed app S pending rely post (Sys.init db n : Sys D W L A Q) := by
  obtain ⟨hinv, hfollows, hidle⟩ := kept_init (M := fun q => Meets app S pending (rely q) (post q)) hI
  exact ⟨hinv, hfollows, hidle⟩

/-- `Meets` is such a rule; while its answer is pending a request bears what it relies on. -/
theorem sound_meets : Sound app S (fun _ _ _ => True)
    (fun q p a b => (Session.mk q p ([] : List W)).busy pending = true → rely q a b)
    (fun q => Meets app S pending (rely q) (post q)) where
  change {q p H ws db n db' n'} h hle hI hc := by
    cases hbusy : (Session.mk q p ([] : List W)).busy pending with
    | true =>
      refine h.change ⟨?_, hle, hI⟩
      rcases hc with rfl | ⟨m, K, hd, ha, hrely⟩
      · exact .refl
      · exact .single ⟨⟨m, K, hd, ha⟩, hrely hbusy⟩
    | false =>
      -- nothing is asked of a request that is over
      cases p with
      | done a =>
        intro hp
        cases hbusy.symm.trans hp
      | _ => cases hbusy
  abort h := h
  select h hI := h _ _ ⟨.refl, le_rfl, hI⟩
  auto h hI := h _ _ ⟨.refl, le_rfl, hI⟩
  lock h hI _ := h _ _ ⟨.refl, le_rfl, hI⟩
  exec h hI := h _ _ ⟨.refl, le_rfl, hI⟩
  commit h hI := h _ _ ⟨.refl, le_rfl, hI⟩

variable [DecidableEq L]

variable {route : Q → Prog D W L A} {R : Q → Prop}

/-- Every request of `R` follows the rule from every committed state. -/
def RoutesMeet (app : W → D → D) (S : Spec D L) (pending : A → Bool) (rely : Q → D → D → Prop)
    (post : Q → A → D → Prop)
    (route : Q → Prog D W L A) (R : Q → Prop) : Prop :=
  ∀ q, R q → ∀ db n, S.I n db → Meets app S pending (rely q) (post q) (route q) ∅ [] db n

/-- **One step** keeps the system invariant. -/
theorem Governed.fire (hroutes : RoutesMeet app S pending rely post route R)
    (h : Governed app S pending rely post s)
    {a : Action Q} (hR : ∀ i q, a = .start i q → R q) (hf : fire app route a s = some s')
    (hb : Borne pending rely a s s') : Governed app S pending rely post s' := by
  have hok : Allowed R (fun _ _ _ => True) s a := by
    cases a with
    | start i q => exact hR i q rfl
    | run i | drop i => simp [Allowed]
  obtain ⟨⟨hinv, hfollows, hidle⟩, -⟩ := Kept.fire sound_meets hroutes ⟨h.inv, h.follows, h.idle⟩ hok hf hb
  exact ⟨hinv, hfollows, hidle⟩

/-- **The rule is sound**: every committed state of every considerate run satisfies the invariant. -/
theorem governed_run (hroutes : RoutesMeet app S pending rely post route R) {db : D} {n : ℕ} (hI : S.I n db)
    (h : Machine.Run (ReadCommitted.fire app route) (Polite app route pending rely R) (.init db n) s) :
    Governed app S pending rely post s :=
  h.invariant (governed_init hI) fun _ _ _ ha hg hf => hg.fire hroutes ha.1 hf (ha.2 _ hf)

end Sound

/-! ### What a program commits -/

section Commits

variable {D W L A Q : Type}

/-- Whatever the program commits, it goes on as `C` says; `ws` is written so far. -/
def Commits (C : List W → Prog D W L A → Prop) : Prog D W L A → List W → Prop
  | .done _, _ => True
  | .abort _, _ => True
  | .select k, ws => ∀ db, Commits C (k db) ws
  | .auto e k, ws => ∀ db n, C (e db n).writes (k db n) ∧ Commits C (k db n) ws
  | .lock _ p, ws => Commits C p ws
  | .exec e k, ws => ∀ db n, Commits C (k db n) (ws ++ (e db n).writes)
  | .commit p, ws => C ws p ∧ Commits C p []

variable {C : List W → Prog D W L A → Prop}

theorem Commits.of_harmless {P : W → Prop} {G : A → Prop} (hC : ∀ ws p, (∀ w ∈ ws, P w) → C ws p)
    {p : Prog D W L A}
    (hp : Harmless P G p) : ∀ {ws}, (∀ w ∈ ws, P w) → Commits C p ws := by
  induction p with
  | done a | abort a => exact fun _ => trivial
  | select k ih => exact fun hws db => ih db (hp db) hws
  | auto e k ih => exact fun hws db n => ⟨hC _ _ (hp db n).1, ih db n (hp db n).2 hws⟩
  | lock l p ih => exact fun hws => ih hp hws
  | exec e k ih =>
    intro ws hws db n
    refine ih db n (hp db n).2 fun w hw => ?_
    rcases mem_append.1 hw with hw | hw
    · exact hws w hw
    · exact (hp db n).1 w hw
  | commit p ih => exact fun hws => ⟨hC _ _ hws, ih hp fun w hw => absurd hw not_mem_nil⟩

variable {app : W → D → D} [DecidableEq L] {s s' : Sys D W L A Q} {i : ℕ} {ss : Session D W L A Q}

/-- **One statement** changes the committed state only by a commit. -/
theorem Commits.runSession (h : Commits C ss.prog ss.writes) (hf : runSession app i ss s = some s') :
    ∃ p ws, s'.sess = update s.sess i (some ⟨ss.req, p, ws⟩) ∧ Commits C p ws ∧
      (s'.db = s.db ∨ ∃ vs, s'.db = view app vs s.db ∧ C vs p) := by
  obtain ⟨req, prog, ws⟩ := ss
  cases prog with
  | done a => cases hf
  | abort a =>
    cases hf
    exact ⟨.done a, [], rfl, trivial, .inl rfl⟩
  | select k =>
    cases hf
    exact ⟨_, ws, rfl, h _, .inl rfl⟩
  | auto e k =>
    simp only [ReadCommitted.runSession] at hf
    split_ifs at hf
    cases hf
    exact ⟨_, ws, rfl, (h _ _).2, .inr ⟨_, rfl, (h s.db s.next).1⟩⟩
  | lock l p =>
    simp only [ReadCommitted.runSession] at hf
    split_ifs at hf
    cases hf
    exact ⟨p, ws, rfl, h, .inl rfl⟩
  | exec e k =>
    simp only [ReadCommitted.runSession] at hf
    split_ifs at hf
    cases hf
    exact ⟨_, _, rfl, h _ _, .inl rfl⟩
  | commit p =>
    cases hf
    exact ⟨p, [], rfl, h.2, .inr ⟨ws, rfl, h.1⟩⟩

end Commits

end ReadCommitted
