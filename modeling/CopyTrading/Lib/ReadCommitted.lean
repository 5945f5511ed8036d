import Mathlib

/-!
# ReadCommitted — many sessions over one database at READ COMMITTED

A request is a program of SQL statements (`Prog`).  A statement runs in one step on the committed
state plus the session's own uncommitted writes; its writes stay private until the session commits.
A statement that writes takes the row and index locks of what it writes; a session that meets a lock
of another session waits, and evaluates its statement again once it may run.  Advisory locks are
taken by a statement of their own.  All locks are held to the end of the transaction.  A row id comes
from a counter that a rollback does not turn back.

`Safe` is the proof rule, a rely-guarantee rule over the locks: a program is safe when every commit
it makes is an action its specification allows, whatever actions sessions with other locks commit in
between.  `reach_safe`: if every request is safe then every committed state of every interleaving
satisfies the invariant, and `step_act`: every step leaves the committed state or is one action.
-/

namespace ReadCommitted

open Relation Function Option

/-- What a writing statement does: its row writes and the row and index locks it takes. -/
structure Effect (W L : Type) where
  writes : List W
  locks : List L

/-- What is left of a request.  `select`: a reading statement.  `auto`: a writing statement outside
a transaction, committed with its own end.  `lock`: an advisory lock held to the transaction's end.
`exec`: a writing statement inside a transaction; it reads, as `auto` does, the visible state and a
fresh row id.  `commit` and `abort` end the transaction. -/
inductive Prog (D W L A : Type) where
  | done (a : A)
  | select (k : D → Prog D W L A)
  | auto (e : D → ℕ → Effect W L) (k : D → ℕ → Prog D W L A)
  | lock (l : L) (p : Prog D W L A)
  | exec (e : D → ℕ → Effect W L) (k : D → ℕ → Prog D W L A)
  | commit (p : Prog D W L A)
  | abort (a : A)

/-- A session: the request it serves, what is left of it and its uncommitted writes. -/
structure Session (D W L A Q : Type) where
  req : Q
  prog : Prog D W L A
  writes : List W

/-- The committed state, the id counter, the lock table and the sessions. -/
structure Sys (D W L A Q : Type) where
  db : D
  next : ℕ
  owner : L → Option ℕ
  sess : ℕ → Option (Session D W L A Q)

/-- One scheduler choice: a session opens with a request, a session runs its next statement, or a
connection ends (its open transaction is rolled back). -/
inductive Action (Q : Type) where
  | start (i : ℕ) (q : Q)
  | run (i : ℕ)
  | drop (i : ℕ)

section Semantics

variable {D W L A Q : Type} (app : W → D → D)

/-- The state a session sees: the committed state with its own writes on top. -/
def view (ws : List W) (db : D) : D := ws.foldl (fun d w => app w d) db

namespace Sys

/-- Store session `i`. -/
def put (s : Sys D W L A Q) (i : ℕ) (ss : Option (Session D W L A Q)) : Sys D W L A Q :=
  { s with sess := update s.sess i ss }

/-- Give locks to session `i`. -/
def take [DecidableEq L] (s : Sys D W L A Q) (i : ℕ) (ls : List L) : Sys D W L A Q :=
  { s with owner := fun l => if l ∈ ls then some i else s.owner l }

/-- Release every lock of session `i`. -/
def release (s : Sys D W L A Q) (i : ℕ) : Sys D W L A Q :=
  { s with owner := fun l => if s.owner l = some i then none else s.owner l }

/-- No session other than `i` holds one of the locks. -/
def free (s : Sys D W L A Q) (i : ℕ) (ls : List L) : Bool :=
  ls.all fun l => s.owner l = none || s.owner l = some i

/-- The locks session `i` holds. -/
def held (s : Sys D W L A Q) (i : ℕ) : Set L := { l | s.owner l = some i }

end Sys

variable [DecidableEq L]

/-- Session `i` runs its next statement; `none` while it waits for a lock, or has finished. -/
def runSession (i : ℕ) (ss : Session D W L A Q) (s : Sys D W L A Q) : Option (Sys D W L A Q) :=
  match ss.prog with
  | .done _ => none
  | .select k => some (s.put i (some { ss with prog := k (view app ss.writes s.db) }))
  | .auto e k =>
    let ef := e s.db s.next
    if s.free i ef.locks then
      some ({ s with db := view app ef.writes s.db, next := s.next + 1 }.put i
        (some { ss with prog := k s.db s.next }))
    else none
  | .lock l p =>
    if s.free i [l] then some ((s.take i [l]).put i (some { ss with prog := p })) else none
  | .exec e k =>
    let v := view app ss.writes s.db
    let ef := e v s.next
    if s.free i ef.locks then
      some (({ s with next := s.next + 1 }.take i ef.locks).put i
        (some { ss with prog := k v s.next, writes := ss.writes ++ ef.writes }))
    else none
  | .commit p =>
    some (({ s with db := view app ss.writes s.db }.release i).put i
      (some { ss with prog := p, writes := [] }))
  | .abort a => some ((s.release i).put i (some { ss with prog := .done a, writes := [] }))

variable (route : Q → Prog D W L A)

/-- One step of the system under a scheduler choice. -/
def fire (a : Action Q) (s : Sys D W L A Q) : Option (Sys D W L A Q) :=
  match a with
  | .start i q =>
    match s.sess i with
    | none => some (s.put i (some ⟨q, route q, []⟩))
    | some _ => none
  | .run i =>
    match s.sess i with
    | none => none
    | some ss => runSession app i ss s
  | .drop i => some ((s.release i).put i none)

/-- The schedules under consideration: only requests in `R` are made, and `sched q l db` holds when
request `q` takes the advisory lock `l` in committed state `db`. -/
def Allowed (R : Q → Prop) (sched : Q → L → D → Prop) (s : Sys D W L A Q) : Action Q → Prop
  | .start _ q => R q
  | .run i => ∀ ss l p, s.sess i = some ss → ss.prog = .lock l p → sched ss.req l s.db
  | .drop _ => True

variable (R : Q → Prop) (sched : Q → L → D → Prop)

/-- One step of the system. -/
def Step (s s' : Sys D W L A Q) : Prop := ∃ a, Allowed R sched s a ∧ fire app route a s = some s'

/-- Runs of the system: any number of steps of any sessions. -/
abbrev Run : Sys D W L A Q → Sys D W L A Q → Prop := ReflTransGen (Step app route R sched)

/-- The system before the first request. -/
def Sys.init (db : D) (n : ℕ) : Sys D W L A Q := ⟨db, n, fun _ => none, fun _ => none⟩

section Computed

variable (chk : Q → L → D → Bool)

/-- `Allowed`, computed: the next statement of session `i` is no lock that `chk` refuses. -/
def allowed (a : Action Q) (s : Sys D W L A Q) : Bool :=
  match a with
  | .run i =>
    match s.sess i with
    | some ⟨q, .lock l _, _⟩ => chk q l s.db
    | _ => true
  | _ => true

/-- A run given by its scheduler choices; `none` once a choice is impossible or refused. -/
def fireAll : List (Action Q) → Sys D W L A Q → Option (Sys D W L A Q)
  | [], s => some s
  | a :: as, s => if allowed chk a s then (fire app route a s).bind (fireAll as) else none

/-- A computed run is a run. -/
theorem run_of_fireAll (as : List (Action Q)) {s s' : Sys D W L A Q}
    (hs : ∀ q l db, chk q l db = true → sched q l db)
    (h : fireAll app route chk as s = some s') : Run app route (fun _ => True) sched s s' := by
  induction as generalizing s with
  | nil => obtain rfl := some.inj h; exact .refl
  | cons a as ih =>
    simp only [fireAll] at h
    split_ifs at h with hc
    obtain ⟨s1, h1, h2⟩ := bind_eq_some_iff.1 h
    refine .head ⟨a, ?_, h1⟩ (ih h2)
    cases a with
    | start i q | drop i => trivial
    | run i =>
      intro ss l p hss hp
      obtain ⟨q, prog, ws⟩ := ss
      obtain rfl : prog = .lock l p := hp
      apply hs
      simpa [allowed, hss] using hc

end Computed

end Semantics

/-! ### The rely-guarantee rule -/

/-- A specification: an invariant of the id counter and the committed state, and the actions a
session may commit with the locks it holds; every action keeps the invariant. -/
structure Spec (D L : Type) where
  I : ℕ → D → Prop
  Act : ℕ → Set L → D → D → Prop
  mono : ∀ {n n' db}, n ≤ n' → I n db → I n' db
  act_inv : ∀ {n H db db'}, I n db → Act n H db db' → I n db'

namespace Spec

variable {D L : Type} (S : Spec D L)

/-- What the other sessions may do to the committed state while a session holds the locks `H`. -/
def Others (H : Set L) : D → D → Prop :=
  ReflTransGen fun a b => ∃ m H', Disjoint H H' ∧ S.Act m H' a b

/-- The committed state and the counter a session with locks `H` may find later. -/
structure Interf (H : Set L) (db : D) (n : ℕ) (db' : D) (n' : ℕ) : Prop where
  others : S.Others H db db'
  le : n ≤ n'
  inv : S.I n' db'

variable {S}

/-- What every action of the others keeps is kept by all of them. -/
theorem Others.keeps {H : Set L} {P : D → D → Prop} (hr : ∀ db, P db db)
    (ht : ∀ a b c, P a b → P b c → P a c) (h1 : ∀ m H' a b, Disjoint H H' → S.Act m H' a b → P a b)
    {db db' : D} (h : S.Others H db db') : P db db' := by
  induction h with
  | refl => exact hr db
  | tail _ hs ih =>
    obtain ⟨m, K, hd, ha⟩ := hs
    exact ht _ _ _ ih (h1 m K _ _ hd ha)

theorem Interf.trans {H : Set L} {db db' db'' : D} {n n' n'' : ℕ} (h : S.Interf H db n db' n')
    (h' : S.Interf H db' n' db'' n'') : S.Interf H db n db'' n'' :=
  ⟨ReflTransGen.trans h.others h'.others, h.le.trans h'.le, h'.inv⟩

end Spec

section Rule

variable {D W L A Q : Type} (app : W → D → D) (S : Spec D L) (sched : Q → L → D → Prop) (q : Q)
  {db : D} {n i j : ℕ} {s s' : Sys D W L A Q} {ls : List L} {o : Option (Session D W L A Q)}

/-- **The rule.**  `Safe p H ws db n`: the program `p` of a session that holds `H`, has written `ws`
and last looked at the committed state `db` with the counter at `n` commits only allowed actions. -/
def Safe : Prog D W L A → Set L → List W → D → ℕ → Prop
  | .done _, _, _, _, _ => True
  | .abort _, _, _, _, _ => True
  | .select k, H, ws, db, n => ∀ db' n', S.Interf H db n db' n' →
      Safe (k (view app ws db')) H ws db' n'
  | .auto e k, H, ws, db, n => ∀ db' n', S.Interf H db n db' n' →
      S.Act (n' + 1) { l | l ∈ (e db' n').locks } db' (view app (e db' n').writes db') ∧
      Safe (k db' n') H ws (view app (e db' n').writes db') (n' + 1)
  | .lock l p, H, ws, db, n => ∀ db' n', S.Interf H db n db' n' → sched q l db' →
      Safe p (H ∪ {l}) ws db' n'
  | .exec e k, H, ws, db, n => ∀ db' n', S.Interf H db n db' n' →
      Safe (k (view app ws db') n') (H ∪ { l | l ∈ (e (view app ws db') n').locks })
        (ws ++ (e (view app ws db') n').writes) db' (n' + 1)
  | .commit p, H, ws, db, n => ∀ db' n', S.Interf H db n db' n' →
      S.Act n' H db' (view app ws db') ∧ Safe p ∅ [] (view app ws db') n'

variable {app S sched q}

/-- The system invariant behind the rule. -/
def Good (app : W → D → D) (S : Spec D L) (sched : Q → L → D → Prop) (s : Sys D W L A Q) : Prop :=
  S.I s.next s.db ∧ ∀ i ss, s.sess i = some ss →
    Safe app S sched ss.req ss.prog (s.held i) ss.writes s.db s.next

/-- No change of the committed state, or one allowed action. -/
def Acts (S : Spec D L) (db db' : D) : Prop := db' = db ∨ ∃ n H, S.Act n H db db'

/-- Locks that are free for `i` are not held by another session. -/
theorem Sys.disjoint_of_free (h : s.free i ls = true)
    (hij : i ≠ j) : Disjoint (s.held j) { l | l ∈ ls } := by
  rw [Set.disjoint_left]
  intro l hl hm
  have := (List.all_eq_true.1 h) l hm
  have hl' : s.owner l = some j := hl
  simp only [hl', Bool.or_eq_true, decide_eq_true_eq, some.injEq, reduceCtorEq,
    false_or] at this
  exact hij this.symm

theorem Sys.disjoint_held (s : Sys D W L A Q) (hij : i ≠ j) : Disjoint (s.held j) (s.held i) := by
  rw [Set.disjoint_left]
  intro l hj hi
  have hj' : s.owner l = some j := hj
  have hi' : s.owner l = some i := hi
  rw [hj'] at hi'
  exact hij (some.inj hi').symm

theorem Sys.held_release_self (s : Sys D W L A Q) (i : ℕ) : (s.release i).held i = ∅ := by
  ext l
  by_cases h : s.owner l = some i <;> simp [Sys.held, Sys.release]

theorem Sys.held_release_ne (s : Sys D W L A Q) (hij : i ≠ j) :
    (s.release i).held j = s.held j := by
  ext l
  by_cases h : s.owner l = some i
  · have : ¬ (some i = some j) := by simpa using hij
    simp [Sys.held, Sys.release, h, hij]
  · simp [Sys.held, Sys.release, h]

/-- What a rule `M` for the programs of sessions is good for: it survives what a session bears of the others'
actions, and a statement commits an allowed action, if any, and leaves a program that follows the rule. -/
structure Sound (app : W → D → D) (S : Spec D L) (sched : Q → L → D → Prop)
    (bears : Q → Prog D W L A → D → D → Prop)
    (M : Q → Prog D W L A → Set L → List W → D → ℕ → Prop) : Prop where
  change : ∀ {q p H ws db n db' n'}, M q p H ws db n → n ≤ n' → S.I n' db' →
    (db' = db ∨ ∃ m H', Disjoint H H' ∧ S.Act m H' db db' ∧ bears q p db db') → M q p H ws db' n'
  abort : ∀ {q a H ws db n}, M q (.abort a) H ws db n → M q (.done a) ∅ [] db n
  select : ∀ {q k H ws db n}, M q (.select k) H ws db n → S.I n db → M q (k (view app ws db)) H ws db n
  auto : ∀ {q e k H ws db n}, M q (.auto e k) H ws db n → S.I n db →
    S.Act (n + 1) { l | l ∈ (e db n).locks } db (view app (e db n).writes db) ∧
      M q (k db n) H ws (view app (e db n).writes db) (n + 1)
  lock : ∀ {q l p H ws db n}, M q (.lock l p) H ws db n → S.I n db → sched q l db → M q p (H ∪ {l}) ws db n
  exec : ∀ {q e k H ws db n}, M q (.exec e k) H ws db n → S.I n db → M q (k (view app ws db) n)
    (H ∪ { l | l ∈ (e (view app ws db) n).locks }) (ws ++ (e (view app ws db) n).writes) db (n + 1)
  commit : ∀ {q p H ws db n}, M q (.commit p) H ws db n → S.I n db →
    S.Act n H db (view app ws db) ∧ M q p ∅ [] (view app ws db) n

/-- Every session follows the rule, and a session that is not there holds no lock. -/
structure Kept (S : Spec D L) (M : Q → Prog D W L A → Set L → List W → D → ℕ → Prop) (s : Sys D W L A Q) :
    Prop where
  inv : S.I s.next s.db
  follows : ∀ i ss, s.sess i = some ss → M ss.req ss.prog (s.held i) ss.writes s.db s.next
  idle : ∀ i, s.sess i = none → s.held i = ∅

variable {bears : Q → Prog D W L A → D → D → Prop} {M : Q → Prog D W L A → Set L → List W → D → ℕ → Prop}

theorem kept_init (hI : S.I n db) : Kept S M (Sys.init db n) := by
  refine ⟨hI, nofun, fun i _ => ?_⟩
  ext l
  simp [Sys.held, Sys.init]

/-- Session `i` is replaced; the others keep their locks and bear the change. -/
theorem Kept.put {t : Sys D W L A Q} (hM : Sound app S sched bears M) (h : Kept S M s) (hs : t.sess = s.sess)
    (hI : S.I t.next t.db) (hle : s.next ≤ t.next) (hheld : ∀ j, i ≠ j → t.held j = s.held j)
    (hact : ∀ j ss, i ≠ j → s.sess j = some ss → t.db = s.db ∨
      ∃ m H', Disjoint (s.held j) H' ∧ S.Act m H' s.db t.db ∧ bears ss.req ss.prog s.db t.db)
    (hi : ∀ ss, o = some ss → M ss.req ss.prog (t.held i) ss.writes t.db t.next) (hnone : o = none →
      t.held i = ∅) :
    Kept S M (t.put i o) := by
  refine ⟨hI, (forall_update_iff t.sess fun j o => ∀ ss, o = some ss →
    M ss.req ss.prog (t.held j) ss.writes t.db t.next).2 ⟨hi, fun j hij ss hj => ?_⟩,
    (forall_update_iff t.sess fun j o => o = none → t.held j = ∅).2 ⟨hnone, fun j hij hj => ?_⟩⟩
  · rw [hs] at hj
    rw [hheld j hij.symm]
    exact hM.change (h.follows j ss hj) hle hI (hact j ss hij.symm hj)
  · rw [hs] at hj
    rw [hheld j hij.symm]
    exact h.idle j hj

/-- `Safe` is such a rule; a session bears every action of sessions with other locks. -/
theorem sound_safe : Sound app S sched (fun _ _ _ _ => True) (Safe app S sched (A := A)) where
  change {q p H ws db n db' n'} h hle hI hc := by
    have hint : S.Interf H db n db' n' := by
      refine ⟨?_, hle, hI⟩
      rcases hc with rfl | ⟨m, K, hd, ha, -⟩
      · exact .refl
      · exact .single ⟨m, K, hd, ha⟩
    cases p with
    | done a | abort a => trivial
    | select k | auto e k | lock l p | exec e k | commit p => exact fun db2 n2 h2 => h db2 n2 (hint.trans h2)
  abort _ := trivial
  select h hI := h _ _ ⟨.refl, le_rfl, hI⟩
  auto h hI := h _ _ ⟨.refl, le_rfl, hI⟩
  lock h hI := h _ _ ⟨.refl, le_rfl, hI⟩
  exec h hI := h _ _ ⟨.refl, le_rfl, hI⟩
  commit h hI := h _ _ ⟨.refl, le_rfl, hI⟩

variable [DecidableEq L]

theorem Sys.held_take (s : Sys D W L A Q) (i : ℕ) (ls : List L) :
    (s.take i ls).held i = s.held i ∪ { l | l ∈ ls } := by
  ext l
  by_cases h : l ∈ ls <;> simp [Sys.held, Sys.take, h]

theorem Sys.held_take_ne (h : s.free i ls = true)
    (hij : i ≠ j) : (s.take i ls).held j = s.held j := by
  ext l
  by_cases hl : l ∈ ls
  · have hn : l ∉ s.held j := fun hj =>
      Set.disjoint_left.1 (Sys.disjoint_of_free h hij) hj hl
    have : ¬ (some i = some j) := by simpa using hij
    simpa [Sys.held, Sys.take, hl, hij] using hn
  · simp [Sys.held, Sys.take, hl]

/-- **One statement of one session** keeps the rule and commits at most one action. -/
theorem Kept.runSession {ss : Session D W L A Q} (hM : Sound app S sched bears M) (h : Kept S M s)
    (hss : s.sess i = some ss) (hl : ∀ l p, ss.prog = .lock l p → sched ss.req l s.db)
    (hf : runSession app i ss s = some s')
    (hb : ∀ j ss', i ≠ j → s.sess j = some ss' → bears ss'.req ss'.prog s.db s'.db) :
    Kept S M s' ∧ Acts S s.db s'.db := by
  have hrule := h.follows i ss hss
  obtain ⟨req, prog, ws⟩ := ss
  cases prog with
  | done a => cases hf
  | abort a =>
    cases hf
    refine ⟨h.put (t := s.release i) hM rfl h.inv le_rfl (fun j hij => s.held_release_ne hij)
      (fun _ _ _ _ => .inl rfl) ?_ nofun, .inl rfl⟩
    rintro ss ⟨⟩
    rw [Sys.held_release_self]
    exact hM.abort hrule
  | select k =>
    cases hf
    refine ⟨h.put (t := s) hM rfl h.inv le_rfl (fun j _ => rfl) (fun _ _ _ _ => .inl rfl) ?_ nofun, .inl rfl⟩
    rintro ss ⟨⟩
    exact hM.select hrule h.inv
  | auto e k =>
    simp only [ReadCommitted.runSession] at hf
    split_ifs at hf with hfree
    cases hf
    obtain ⟨hact, hk⟩ := hM.auto hrule h.inv
    have hI := S.act_inv (S.mono (Nat.le_succ _) h.inv) hact
    refine ⟨h.put (t := { s with db := view app (e s.db s.next).writes s.db, next := s.next + 1 }) hM rfl hI
      (Nat.le_succ _) (fun j _ => rfl) (fun j ss' hij hj => .inr ?_) ?_ nofun, .inr ⟨_, _, hact⟩⟩
    · exact ⟨_, _, Sys.disjoint_of_free hfree hij, hact, hb j ss' hij hj⟩
    · rintro ss ⟨⟩
      exact hk
  | lock l p =>
    simp only [ReadCommitted.runSession] at hf
    split_ifs at hf with hfree
    cases hf
    refine ⟨h.put (t := s.take i [l]) hM rfl h.inv le_rfl (fun j hij => Sys.held_take_ne hfree hij)
      (fun _ _ _ _ => .inl rfl) ?_ nofun, .inl rfl⟩
    rintro ss ⟨⟩
    have hset : s.held i ∪ {l} = s.held i ∪ { l' | l' ∈ [l] } := by simp
    rw [Sys.held_take, ← hset]
    exact hM.lock hrule h.inv (hl l p rfl)
  | exec e k =>
    simp only [ReadCommitted.runSession] at hf
    split_ifs at hf with hfree
    cases hf
    refine ⟨h.put (t := { s with next := s.next + 1 }.take i (e (view app ws s.db) s.next).locks) hM rfl
      (S.mono (Nat.le_succ _) h.inv) (Nat.le_succ _)
      (fun j hij => Sys.held_take_ne (s := { s with next := s.next + 1 }) hfree hij)
      (fun _ _ _ _ => .inl rfl) ?_ ?_, .inl rfl⟩
    · rintro ss ⟨⟩
      rw [Sys.held_take]
      exact hM.exec hrule h.inv
    · nofun
  | commit p =>
    cases hf
    obtain ⟨hact, hk⟩ := hM.commit hrule h.inv
    refine ⟨h.put (t := { s with db := view app ws s.db }.release i) hM rfl (S.act_inv h.inv hact) le_rfl
      (fun j hij => Sys.held_release_ne { s with db := view app ws s.db } hij)
      (fun j ss' hij hj => .inr ?_) ?_ ?_, .inr ⟨_, _, hact⟩⟩
    · exact ⟨_, _, s.disjoint_held hij, hact, hb j ss' hij hj⟩
    · rintro ss ⟨⟩
      rw [Sys.held_release_self]
      exact hk
    · nofun

variable {route : Q → Prog D W L A} {R : Q → Prop}

/-- Every request of `R` is safe from every committed state. -/
def RoutesSafe (app : W → D → D) (S : Spec D L) (sched : Q → L → D → Prop)
    (route : Q → Prog D W L A) (R : Q → Prop) : Prop :=
  ∀ q, R q → ∀ db n, S.I n db → Safe app S sched q (route q) ∅ [] db n

/-- **One step** of the system keeps the rule and commits at most one action. -/
theorem Kept.fire {a : Action Q} (hM : Sound app S sched bears M)
    (hroutes : ∀ q, R q → ∀ db n, S.I n db → M q (route q) ∅ [] db n) (h : Kept S M s) (hok : Allowed R sched s a)
    (hf : fire app route a s = some s')
    (hb : ∀ j ss, a ≠ .run j → s.sess j = some ss → bears ss.req ss.prog s.db s'.db) :
    Kept S M s' ∧ Acts S s.db s'.db := by
  cases a with
  | start i q =>
    simp only [ReadCommitted.fire] at hf
    split at hf
    · next hn =>
      cases hf
      refine ⟨h.put (t := s) hM rfl h.inv le_rfl (fun j _ => rfl) (fun _ _ _ _ => .inl rfl) ?_ nofun, .inl rfl⟩
      rintro ss ⟨⟩
      rw [h.idle i hn]
      exact hroutes q hok _ _ h.inv
    · cases hf
  | run i =>
    simp only [ReadCommitted.fire] at hf
    split at hf
    · cases hf
    · next ss hss =>
      exact h.runSession hM hss (fun l p hp => hok ss l p hss hp) hf fun j ss' hij =>
        hb j ss' fun he => hij (Action.run.inj he)
  | drop i =>
    cases hf
    exact ⟨h.put (t := s.release i) hM rfl h.inv le_rfl (fun j hij => s.held_release_ne hij)
      (fun _ _ _ _ => .inl rfl) nofun fun _ => s.held_release_self i, .inl rfl⟩

/-- **The rule is sound**: along every run the system invariant holds, and the committed states of
the run are linked by allowed actions. -/
theorem reach_safe (hsafe : RoutesSafe app S sched route R) (hI : S.I n db)
    (h : Run app route R sched (.init db n) s) :
    Good app S sched s ∧ (∀ i, s.sess i = none → s.held i = ∅) ∧
      ReflTransGen (fun a b => ∃ n H, S.Act n H a b) db s.db := by
  induction h with
  | refl => exact ⟨⟨hI, nofun⟩, (kept_init (M := Safe app S sched) hI).idle, .refl⟩
  | tail _ hs ih =>
    obtain ⟨⟨hI, hfollows⟩, hidle, hr⟩ := ih
    obtain ⟨a, hok, hf⟩ := hs
    obtain ⟨hk, hact⟩ := Kept.fire sound_safe hsafe ⟨hI, hfollows, hidle⟩ hok hf fun _ _ _ _ => trivial
    refine ⟨⟨hk.inv, hk.follows⟩, hk.idle, ?_⟩
    rcases hact with he | ha
    · rw [he]
      exact hr
    · exact hr.tail ha

/-- Every step of a run leaves the committed state or is one allowed action. -/
theorem step_act (hsafe : RoutesSafe app S sched route R) (hI : S.I n db)
    (h : Run app route R sched (.init db n) s)
    (hs : Step app route R sched s s') : Acts S s.db s'.db := by
  obtain ⟨⟨hI, hfollows⟩, hidle, -⟩ := reach_safe hsafe hI h
  obtain ⟨a, hok, hf⟩ := hs
  exact (Kept.fire sound_safe hsafe ⟨hI, hfollows, hidle⟩ hok hf fun _ _ _ _ => trivial).2

end Rule

end ReadCommitted
