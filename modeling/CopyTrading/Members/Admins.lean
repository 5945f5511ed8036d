import CopyTrading.Members.Programs

/-!
# Members.Admins — every org keeps an admin

A demotion or a removal locks the admins that it finds and refuses when it has locked exactly one.  The locked
admins stay.  But a query finds only the rows of its beginning: if all of them have been demoted when their locks
are free, and the target was made an admin meanwhile, it locks none, and the last admin goes.  Where no one becomes
an admin while another change of the org's members is in progress, all admins are locked (`Locking`).
-/

namespace Members

open List

variable {role : Role} {ws : List Write}

open ReadCommitted

/-- The org has an admin. -/
def Db.hasAdmin (db : Db) (org : ℕ) : Prop := ∃ m ∈ db.memberships.rows, m.who.org = org ∧ m.role = .admin

instance (db : Db) (org : ℕ) : Decidable (db.hasAdmin org) := by unfold Db.hasAdmin; infer_instance

/-- A membership of the org changes only under its lock. -/
def RowsLocked (org : ℕ) (H : Set Lock) (db db' : Db) : Prop :=
  ∀ m ∈ db.memberships.rows, m.who.org = org → .member m.who ∉ H → m ∈ db'.memberships.rows

/-- Every commit leaves the org an admin. -/
def adminSpec (org : ℕ) : Spec Db Lock where
  I _ db := db.hasAdmin org
  Act _ H db db' := (db.hasAdmin org → db'.hasAdmin org) ∧ RowsLocked org H db db'
  mono _ h := h
  act_inv h ha := ha.1 h

/-- No one becomes an admin of the org. -/
def NoNewAdmin (org : ℕ) (db db' : Db) : Prop :=
  ∀ m ∈ db'.memberships.rows, m.who.org = org → m.role = .admin → m ∈ db.memberships.rows

instance (org : ℕ) (db db' : Db) : Decidable (NoNewAdmin org db db') := by unfold NoNewAdmin; infer_instance

/-- A change of an org's members bears no new admin of the org. -/
def adminRely : Request → Db → Db → Prop
  | .patchMember _ org _ _ | .removeMember _ org _ => NoNewAdmin org
  | _ => fun _ _ => True

instance (q : Request) (db db' : Db) : Decidable (adminRely q db db') := by
  induction q using Request.casesOn <;> (dsimp only [adminRely]; infer_instance)

/-! ### What the writes do to the members -/

variable {org : ℕ} {db db' : Db} {n n' : ℕ} {H H' : Set Lock} {who : Who}

/-- The write leaves the org its members. -/
def Write.spares (org : ℕ) : Write → Prop
  | .role who _ | .leave who => who.org ≠ org
  | _ => True

theorem Write.isCancel.spares {w : Write} (h : w.isCancel) : w.spares org := by
  obtain ⟨id, rfl⟩ := h
  exact trivial

theorem mem_role {m : Membership} (hm : m ∈ db.memberships.rows) (hne : m.who ≠ who) :
    m ∈ (db.put (.role who role)).memberships.rows := by
  rw [Table.mem_iff_find, key_membership]
  dsimp only [Db.put]
  rw [Table.find_modify_ne hne.symm]
  exact Table.mem_iff_find.1 hm

theorem mem_leave {m : Membership} (hm : m ∈ db.memberships.rows) (hne : m.who ≠ who) :
    m ∈ (db.put (.leave who)).memberships.rows := by
  rw [Table.mem_iff_find, key_membership]
  dsimp only [Db.put]
  rw [Table.find_delete, if_neg (by simpa using hne)]
  exact Table.mem_iff_find.1 hm

theorem role_mem {m : Membership} (hm : m ∈ db.memberships.rows) :
    { m with role := role } ∈ (db.put (.role m.who role)).memberships.rows :=
  mem_map.2 ⟨m, hm, if_pos rfl⟩

theorem mem_put {w : Write} (hw : w.spares org) {m : Membership} (hm : m ∈ db.memberships.rows)
    (ho : m.who.org = org) :
    m ∈ (db.put w).memberships.rows := by
  cases w with
  | join a => exact Table.mem_insert_of_mem hm
  | role who role => exact mem_role hm fun he => hw (he ▸ ho)
  | leave who => exact mem_leave hm fun he => hw (he ▸ ho)
  | _ => exact hm

theorem mem_view (hws : ∀ w ∈ ws, w.spares org) {m : Membership} (hm : m ∈ db.memberships.rows)
    (ho : m.who.org = org) : m ∈ (view ws db).memberships.rows :=
  foldlRecOn (motive := fun db : Db => m ∈ db.memberships.rows) ws _ hm fun _ hm w hw => mem_put (hws w hw) hm ho

theorem adminAct_of_spares (hws : ∀ w ∈ ws, w.spares org) :
    (adminSpec org).Act n H db (view ws db) :=
  ⟨fun ⟨m, hm, ho, ha⟩ => ⟨m, mem_view hws hm ho, ho, ha⟩, fun _ hm ho _ => mem_view hws hm ho⟩

/-! ### The locked admins -/

/-- The admins `ids` are locked, the rows `ms` are still to be locked, and there is no other admin. -/
structure Locking (org : ℕ) (H : Set Lock) (db : Db) (ms : List Membership) (ids : List ℕ) : Prop where
  locked : ∀ u ∈ ids, .member ⟨org, u⟩ ∈ H ∧ ∃ m ∈ db.memberships.rows, m.who = ⟨org, u⟩ ∧ m.role = .admin
  nodup : (ids ++ ms.map fun m => m.who.user).Nodup
  mine : ∀ m ∈ ms, m.who.org = org
  all : ∀ m ∈ db.memberships.rows, m.who.org = org → m.role = .admin → m ∈ ms ∨ m.who.user ∈ ids

section Locking

variable {ms : List Membership} {ids : List ℕ} {m : Membership} {rely : Db → Db → Prop}

/-- A locked row stays. -/
theorem mem_change (hc : (adminSpec org).Change rely H db n db' n') (hm : m ∈ db.memberships.rows)
    (ho : m.who.org = org)
    (hl : .member m.who ∈ H) : m ∈ db'.memberships.rows :=
  hc.keeps (P := fun a b => m ∈ a.memberships.rows → m ∈ b.memberships.rows) (fun _ h => h)
    (fun _ _ _ h h' hm => h' (h hm)) (fun _ _ _ _ hd ha _ hm => ha.2 m hm ho (Set.disjoint_left.1 hd hl)) hm

/-- The others change no locked row, and make no one an admin. -/
theorem Locking.change (h : Locking org H db ms ids) (hc : (adminSpec org).Change (NoNewAdmin org) H db n db' n') :
    Locking org H db' ms ids := by
  have hold : NoNewAdmin org db db' :=
    hc.keeps (fun _ m hm _ _ => hm) (fun _ _ _ h₁ h₂ m hm ho ha => h₁ m (h₂ m hm ho ha) ho ha)
      fun _ _ _ _ _ _ hr => hr
  refine ⟨fun u hu => ?_, h.nodup, h.mine, fun m hm ho ha => h.all m (hold m hm ho ha) ho ha⟩
  obtain ⟨hl, m, hm, hw, ha⟩ := h.locked u hu
  exact ⟨hl, m, mem_change hc hm (by rw [hw]) (hw ▸ hl), hw, ha⟩

theorem locking_admins (db : Db) (H : Set Lock) : Locking org H db (db.admins org) [] := by
  refine ⟨forall_mem_nil _, ?_, fun m hm => ?_, fun m hm ho ha => .inl ?_⟩
  · rw [nil_append]
    have hnd : ((db.admins org).map Membership.who).Nodup :=
      (filter_sublist.map Membership.who).nodup db.memberships.nodup
    refine Nodup.map_on (fun m hm m' hm' hu => ?_) (Nodup.of_map _ hnd)
    have ho : m.who.org = m'.who.org := by
      have h₁ := (mem_filter.1 hm).2
      have h₂ := (mem_filter.1 hm').2
      simp only [Bool.and_eq_true, decide_eq_true_eq] at h₁ h₂
      exact h₁.1.trans h₂.1.symm
    refine inj_on_of_nodup_map hnd hm hm' ?_
    cases hw : m.who
    cases hw' : m'.who
    simp_all
  · have h := (mem_filter.1 hm).2
    simp only [Bool.and_eq_true, decide_eq_true_eq] at h
    exact h.1
  · exact mem_filter.2 ⟨hm, by simp [ho, ha]⟩

/-- The next row is locked and looked at again. -/
theorem Locking.take (h : Locking org H db (m :: ms) ids) : Locking org (H ∪ {.member m.who}) db ms
    (if (db.current m).any fun m' => m'.role = .admin then ids ++ [m.who.user] else ids) := by
  have horg : m.who.org = org := h.mine m mem_cons_self
  have hlocked : ∀ u ∈ ids, .member ⟨org, u⟩ ∈ H ∪ {.member m.who} ∧
      ∃ m ∈ db.memberships.rows, m.who = ⟨org, u⟩ ∧ m.role = .admin := fun u hu =>
    ⟨.inl (h.locked u hu).1, (h.locked u hu).2⟩
  have hmine : ∀ m' ∈ ms, m'.who.org = org := fun m' hm' => h.mine m' (mem_cons_of_mem m hm')
  split_ifs with hcur
  · obtain ⟨m', hm', hadmin⟩ := (Option.any_eq_true _ _).1 hcur
    obtain ⟨hfind, -⟩ := Option.filter_eq_some_iff.1 hm'
    obtain ⟨hmem, hkey⟩ := Table.find_eq_some hfind
    refine ⟨forall_mem_append.2 ⟨hlocked, forall_mem_singleton.2 ?_⟩, by simpa using h.nodup, hmine,
      fun a ha ho hr => ?_⟩
    · have hwho : m.who = ⟨org, m.who.user⟩ := by rw [← horg]
      rw [← hwho]
      exact ⟨.inr rfl, m', hmem, hkey, by simpa using hadmin⟩
    · rcases h.all a ha ho hr with hin | hin
      · rcases mem_cons.1 hin with rfl | hin
        · exact .inr (mem_append_right _ (mem_singleton_self _))
        · exact .inl hin
      · exact .inr (mem_append_left _ hin)
  · refine ⟨hlocked, ?_, hmine, fun a ha ho hr => ?_⟩
    · have hnd := h.nodup
      rw [map_cons] at hnd
      exact hnd.sublist (Sublist.append_left (sublist_cons_self _ _) ids)
    · rcases h.all a ha ho hr with hin | hin
      · rcases mem_cons.1 hin with rfl | hin
        · -- an admin that is there would have been returned
          refine absurd ?_ hcur
          have hfind : db.memberships.find a.who = some a := Table.mem_iff_find.1 ha
          simp [Db.current, hfind, hr]
        · exact .inl hin
      · exact .inr hin

theorem Locking.mono (h : Locking org H db ms ids) (hH : H ⊆ H') : Locking org H' db ms ids :=
  ⟨fun u hu => ⟨hH (h.locked u hu).1, (h.locked u hu).2⟩, h.nodup, h.mine, h.all⟩

/-- Beside a member that is not the only locked admin there is an admin. -/
theorem Locking.other (h : Locking org H db [] ids) (hm : m ∈ db.memberships.rows) (ho : m.who.org = org)
    (hlast : ¬ (m.role = .admin ∧ ids.length = 1)) (hadmin : db.hasAdmin org) :
    ∃ a ∈ db.memberships.rows, a.who ≠ m.who ∧ a.who.org = org ∧ a.role = .admin := by
  by_cases hrole : m.role = .admin
  · have hnd : ids.Nodup := by simpa using h.nodup
    have hin : m.who.user ∈ ids := (h.all m hm ho hrole).resolve_left not_mem_nil
    obtain ⟨v, hv, hne⟩ : ∃ v ∈ ids, v ≠ m.who.user := by
      by_contra hall
      push Not at hall
      have hsub : ids ⊆ [m.who.user] := fun v hv => mem_singleton.2 (hall v hv)
      have hle := (subperm_of_subset hnd hsub).length_le
      have hpos := length_pos_of_mem hin
      have hlen : ids.length ≠ 1 := fun hl => hlast ⟨hrole, hl⟩
      simp only [length_singleton] at hle
      omega
    obtain ⟨-, a, ha, hw, hadm⟩ := h.locked v hv
    exact ⟨a, ha, fun he => hne (by rw [← he, hw]), by rw [hw], hadm⟩
  · obtain ⟨a, ha, hao, hadm⟩ := hadmin
    refine ⟨a, ha, fun he => hrole ?_, hao, hadm⟩
    have hsame : a = m := inj_on_of_nodup_map db.memberships.nodup ha hm he
    exact hsame ▸ hadm

end Locking

/-! ### The routes -/

section Routes

variable {post : Reply → Db → Prop} {k : List ℕ → Prog}

theorem meets_lockAdmins_all (hk : ∀ ids H db n, Locking org H db [] ids →
      Meets Db.put (adminSpec org) quiet (NoNewAdmin org) post (k ids) H [] db n) :
    Meets Db.put (adminSpec org) quiet (NoNewAdmin org) post (lockAdmins org k) H [] db n := by
  have heach : ∀ ms ids H db n, Locking org H db ms ids →
      Meets Db.put (adminSpec org) quiet (NoNewAdmin org) post (lockEach k ms ids) H [] db n := by
    intro ms
    induction ms with
    | nil => exact hk
    | cons m ms ih =>
      intro ids H db n hl db' n' hc
      have hset : H ∪ { l | l ∈ [Lock.member m.who] } = H ∪ {.member m.who} := by simp
      dsimp only [view_nil]
      rw [hset]
      exact ih _ _ _ _ (hl.change hc).take
  exact fun db' n' _ => heach _ _ _ _ _ (locking_admins db' H)

/-- The admins and the row of `m` are locked. -/
structure Holding (org : ℕ) (H : Set Lock) (db : Db) (ids : List ℕ) (m : Membership) : Prop extends
    Locking org H db [] ids where
  row : m ∈ db.memberships.rows
  org_eq : m.who.org = org
  lock : .member m.who ∈ H

variable {ids : List ℕ} {m : Membership} {p : Prog} {w : Write} {a : Reply}

theorem Holding.change (h : Holding org H db ids m) (hc : (adminSpec org).Change (NoNewAdmin org) H db n db' n') :
    Holding org H db' ids m :=
  ⟨h.toLocking.change hc, mem_change hc h.row h.org_eq h.lock, h.org_eq, h.lock⟩

theorem Holding.mono (h : Holding org H db ids m) (hH : H ⊆ H') : Holding org H' db ids m :=
  ⟨h.toLocking.mono hH, h.row, h.org_eq, hH h.lock⟩

theorem meets_lockTarget (who : Who) (ho : who.org = org) {k : List ℕ → Option Role → Prog}
    (hnone : ∀ ids H db n, Meets Db.put (adminSpec org) quiet (NoNewAdmin org) post (k ids none) H [] db n)
    (hsome : ∀ ids m H db n, m.who = who → Holding org H db ids m →
      Meets Db.put (adminSpec org) quiet (NoNewAdmin org) post (k ids (some m.role)) H [] db n) :
    Meets Db.put (adminSpec org) quiet (NoNewAdmin org) post
      (lockAdmins org fun ids => lockMember who (k ids)) H [] db n := by
  refine meets_lockAdmins_all fun ids H db n hl => meets_lockMember (hnone ids) fun m db' n' hc hm hwho => ?_
  have horg : m.who.org = org := by rw [hwho, ho]
  refine hsome ids m _ db' _ hwho ⟨(hl.change hc).mono Set.subset_union_left, hm, horg, ?_⟩
  rw [hwho]
  exact .inr rfl

/-- The write, whatever requests are cancelled with it, changes one row and leaves an admin. -/
theorem Holding.meets_write (h : Holding org H db ids m)
    (hrest : ∀ db : Db, ∀ a ∈ db.memberships.rows, a.who ≠ m.who → a ∈ (db.put w).memberships.rows)
    (hadmin : ∀ H (db : Db), Holding org H db ids m → db.hasAdmin org → (db.put w).hasAdmin org)
    (hp : Tail Write.isCancel a p) :
    Meets Db.put (adminSpec org) quiet (NoNewAdmin org) post
      (.exec (fun _ _ => ⟨[w], [.member m.who]⟩) fun _ _ => p)
      H [] db n := by
  intro db' n' hc
  have hh := (h.change hc).mono (Set.subset_union_left (t := { l | l ∈ [Lock.member m.who] }))
  refine Meets.of_tail (F := fun db => Holding org _ db ids m) (fun hc hF => hF.change hc)
    (fun {n H' db vs} hH _ hF hvs => ?_) nofun hp hh
  have hF' := hF.mono hH
  have hsp : ∀ v ∈ vs, v.spares org := fun v hv => (hvs v hv).spares
  refine ⟨fun ha => ?_, fun a ha hao hl => ?_⟩
  · obtain ⟨b, hb, hbo, hadm⟩ := hadmin H' db hF' ha
    exact ⟨b, mem_view hsp hb hbo, hbo, hadm⟩
  · exact mem_view hsp (hrest db a ha fun he => hl (he ▸ hF'.lock)) hao

theorem Holding.hasAdmin_role {role : Role} (h : Holding org H db ids m)
    (hlast : ¬ (m.role = .admin ∧ role ≠ .admin ∧ ids.length = 1)) (hadmin : db.hasAdmin org) :
    (db.put (.role m.who role)).hasAdmin org := by
  by_cases hrole : role = .admin
  · exact ⟨_, role_mem h.row, h.org_eq, hrole⟩
  · obtain ⟨a, ha, hne, hao, hadm⟩ := h.other h.row h.org_eq (fun hl => hlast ⟨hl.1, hrole, hl.2⟩) hadmin
    exact ⟨a, mem_role ha hne, hao, hadm⟩

theorem meets_patchMember {c : Caller} {member : ℕ} {role : Option Role} :
    Meets Db.put (adminSpec org) quiet (NoNewAdmin org) post (patchMember c org member role) H [] db n := by
  unfold patchMember
  refine meets_requireOrgRole final_quiet fun _ _ _ _ _ => ?_
  cases role with
  | none => exact meets_final final_quiet trivial
  | some role =>
    refine meets_lockTarget ⟨org, member⟩ rfl ?_ ?_
    · exact fun _ _ _ _ => meets_rollback final_quiet
    · intro ids m H db n hwho hh
      dsimp only
      by_cases hlast : m.role = .admin ∧ role ≠ .admin ∧ ids.length = 1
      · rw [if_pos hlast]
        exact meets_rollback final_quiet
      · rw [if_neg hlast, ← hwho]
        refine hh.meets_write (a := .ok) (fun db a => mem_role) (fun H db hF => hF.hasAdmin_role hlast) ?_
        split_ifs
        · exact tail_cancelOpenAccountRequests m.who
        · exact rfl

theorem meets_removeMember {c : Caller} {member : ℕ} :
    Meets Db.put (adminSpec org) quiet (NoNewAdmin org) post (removeMember c org member) H [] db n := by
  unfold removeMember
  refine meets_requireOrgRole final_quiet fun _ _ _ _ _ => ?_
  split_ifs
  · exact meets_final final_quiet trivial
  · refine meets_lockTarget ⟨org, member⟩ rfl ?_ ?_
    · exact fun _ _ _ _ => meets_rollback final_quiet
    · intro ids m H db n hwho hh
      dsimp only
      by_cases hlast : m.role = .admin ∧ ids.length = 1
      · rw [if_pos hlast]
        exact meets_rollback final_quiet
      · rw [if_neg hlast, ← hwho]
        refine hh.meets_write (fun db a => mem_leave) (fun H db hF hadmin => ?_)
          (tail_cancelOpenAccountRequests m.who)
        obtain ⟨a, ha, hne, hao, hadm⟩ := hF.other hF.row hF.org_eq hlast hadmin
        exact ⟨a, mem_leave ha hne, hao, hadm⟩

/-- The request changes no row of the org's members. -/
def Request.spares (org : ℕ) : Request → Prop
  | .patchMember _ org' _ _ | .removeMember _ org' _ => org' ≠ org
  | _ => True

theorem Request.May.spares {q : Request} (h : q.May w) (hq : q.spares org) : w.spares org := by
  cases h with
  | role | leave => exact hq
  | _ => exact trivial

theorem routesMeet_admins (sealWith : String → String) (org : ℕ) :
    RoutesMeet Db.put (adminSpec org) quiet adminRely (fun _ _ _ => True) (route sealWith) fun _ => True := by
  intro q _ db n _
  by_cases hq : q.spares org
  · exact Meets.of_harmless (F := fun _ => True) (fun _ h => h)
      (fun _ _ hws => ⟨adminAct_of_spares fun w hw => (hws w hw).spares hq, trivial⟩)
      (fun _ hp => (Bool.false_ne_true hp).elim) (harmless_route sealWith q)
      (forall_mem_nil _) trivial
  · cases q with
    | patchMember c org' member role =>
      obtain rfl : org' = org := not_not.1 hq
      exact meets_patchMember
    | removeMember c org' member =>
      obtain rfl : org' = org := not_not.1 hq
      exact meets_removeMember
    | _ => exact absurd trivial hq

end Routes

/-- **Every org keeps an admin**, if no one becomes an admin of it while another change of its members is in
progress. -/
theorem org_keeps_admin (sealWith : String → String) {s : Sys} (h0 : db.hasAdmin org)
    (h : ConsiderateRun sealWith quiet adminRely (.init db n) s) : s.db.hasAdmin org :=
  (governed_run (routesMeet_admins sealWith org) h0 h).inv

/-! ### Runs -/

/-- Org 1 with the admin 1 and the viewers 2 and 3. -/
def smallOrg : Db where
  memberships := ⟨[⟨⟨1, 1⟩, .admin, 1⟩, ⟨⟨1, 2⟩, .viewer, 2⟩, ⟨⟨1, 3⟩, .viewer, 3⟩], by decide⟩
  invites := .empty
  requests := .empty
  accounts := .empty
  sessionVersion _ := some 0
  config := ⟨fun _ => true, fun _ => 1, fun _ => none⟩

/-- The admin makes user 2 an admin, who then removes the first one. -/
theorem org_keeps_admin_handover : ∃ s, ConsiderateRun id quiet adminRely (.init smallOrg 10) s ∧
    s.db.memberships.rows = [⟨⟨1, 2⟩, .admin, 2⟩, ⟨⟨1, 3⟩, .viewer, 3⟩] ∧ s.db.hasAdmin 1 := by
  obtain ⟨s, hs, hp⟩ := exists_polite Db.put (route id) quiet adminRely 2
    ((serve 0 (.patchMember (signedIn 1) 1 2 (some .admin)) 9).append
      (serve 1 (.removeMember (signedIn 2) 1 1) 10))
    smallOrg 10 (P := fun s => s.db.memberships.rows = [⟨⟨1, 2⟩, .admin, 2⟩, ⟨⟨1, 3⟩, .viewer, 3⟩]) (by decide)
  exact ⟨s, hs, hp, org_keeps_admin id (by decide) hs⟩

/-- **The last admin goes**: a demotion of user 2 looks for admins when user 1 is the only one; user 2 is made an
admin and user 1 demoted; then it finds user 1 an admin no more, counts no admin and demotes user 2. -/
theorem org_without_admin : smallOrg.hasAdmin 1 ∧ ∃ s, AnyRun id (.init smallOrg 10) s ∧ ¬ s.db.hasAdmin 1 :=
  ⟨by decide, exists_anyRun id
    ((serve 0 (.patchMember (signedIn 1) 1 2 (some .viewer)) 3).append
      ((serve 1 (.patchMember (signedIn 1) 1 2 (some .admin)) 9).append
        ((serve 2 (.patchMember (signedIn 1) 1 1 (some .viewer)) 10).append (replicate 6 (.run 0)))))
    (.init smallOrg 10) (by decide)⟩

end Members
