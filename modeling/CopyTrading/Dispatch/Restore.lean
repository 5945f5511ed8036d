import CopyTrading.Lib.Machine

/-!
# Dispatch.Restore — copying after a flatten (`close_all`, `_restore_copying_after_flatten`)

An org-wide flatten reads the org, switches its copying off, reads the version that every write of the row raises,
and at the end switches copying on again if the version is still the same.  Each of these is a transaction of its
own, and operators write the same row through the api between any two of them.  What the version guards is what
comes after it was read.
-/

namespace Copier.Restore

/-- A row of `orgs`. -/
structure OrgRow where
  copyingEnabled : Bool
  dryRun : Bool
  settingsVersion : ℕ
  deriving DecidableEq

/-- `SettingsUpdateRequest`. -/
structure SettingsUpdate where
  copyingEnabled : Option Bool
  dryRun : Option Bool
  deriving DecidableEq

/-- There is something to write. -/
def SettingsUpdate.updates (u : SettingsUpdate) : Bool := u.copyingEnabled.isSome || u.dryRun.isSome

namespace OrgRow

/-- `UPDATE orgs SET …`, with the trigger `bump_org_settings_version`. -/
def update (u : SettingsUpdate) (row : OrgRow) : OrgRow where
  copyingEnabled := u.copyingEnabled.getD row.copyingEnabled
  dryRun := u.dryRun.getD row.dryRun
  settingsVersion := row.settingsVersion + 1

/-- `set_org_setting(org_id, "copying_enabled", False)`. -/
def pause (row : OrgRow) : OrgRow := row.update ⟨some false, none⟩

/-- `restore_copying_if_unchanged`. -/
def restoreIfUnchanged (expected : ℕ) (row : OrgRow) : OrgRow :=
  if row.settingsVersion = expected then row.update ⟨some true, none⟩ else row

end OrgRow

/-- How far `close_all` has got. -/
inductive Phase where
  | idle
  /-- The org is read. -/
  | read (wasCopying : Bool)
  | paused (wasCopying : Bool)
  /-- The version is read: the accounts are flattened, then the grace passes. -/
  | guarded (wasCopying : Bool) (guard : ℕ)
  /-- The first attempt to restore has raised. -/
  | retrying (guard : ℕ)
  | finished
  deriving DecidableEq

structure State where
  row : OrgRow
  phase : Phase
  /-- What the last operator's write since the org was read has left in `copying_enabled`. -/
  left : Option Bool
  /-- An operator's write has committed since the version was read. -/
  late : Bool
  deriving DecidableEq

/-- What happens next to the org's gates. -/
inductive Action where
  /-- `PUT /settings` of an operator commits. -/
  | put (u : SettingsUpdate)
  /-- The next statement of `close_all`. -/
  | closeAll
  /-- It raises; `took` if the database has carried it out. -/
  | raise (took : Bool)
  deriving DecidableEq

/-- A statement of `close_all` is carried out, answered or not. -/
def Action.carriedOut : Action → Bool
  | .put _ => false
  | .closeAll => true
  | .raise took => took

/-- The version is read and the restore is still to come. -/
def Phase.isGuarded : Phase → Bool
  | .guarded _ _ => true
  | .retrying _ => true
  | _ => false

namespace State

variable {row : OrgRow}

/-- What the restore of `close_all` makes of the row, where it comes next. -/
def restore (s : State) : Option OrgRow :=
  match s.phase with
  | .guarded true guard => some (s.row.restoreIfUnchanged guard)
  | .retrying guard => some (s.row.restoreIfUnchanged guard)
  | _ => none

/-- The next statement of `close_all` is the restore. -/
def restoring (s : State) : Bool := s.restore.isSome

/-- The next statement of `close_all` is carried out. -/
def statement (s : State) : Option State :=
  match s.phase with
  | .idle => some ⟨s.row, .read s.row.copyingEnabled, none, false⟩
  | .read was => some { s with row := s.row.pause, phase := .paused was }
  | .paused was => some { s with phase := .guarded was s.row.settingsVersion }
  | .guarded true guard => some { s with row := s.row.restoreIfUnchanged guard, phase := .finished }
  | .guarded false _ => some { s with phase := .finished }
  | .retrying guard => some { s with row := s.row.restoreIfUnchanged guard, phase := .finished }
  | .finished => none

/-- The next statement raises: only the restore is tried again. -/
def raised (took : Bool) (s : State) : Option State :=
  match s.phase with
  | .idle => some { s with phase := .finished }
  | .read _ => some { s with row := if took then s.row.pause else s.row, phase := .finished }
  | .paused _ => some { s with phase := .finished }
  | .guarded true guard =>
    some { s with row := if took then s.row.restoreIfUnchanged guard else s.row, phase := .retrying guard }
  | .guarded false _ => none
  | .retrying guard =>
    some { s with row := if took then s.row.restoreIfUnchanged guard else s.row, phase := .finished }
  | .finished => none

def fire : Action → State → Option State
  | .put u, s =>
    if u.updates then
      some { s with
        row := s.row.update u
        left := some (s.row.update u).copyingEnabled
        late := s.late || s.phase.isGuarded }
    else none
  | .closeAll, s => s.statement
  | .raise took, s => s.raised took

/-! ### What the version tells -/

/-- While the restore is to come: without a late write the version is the one that was read, or an attempt has put
copying on; with one, the version has moved and the row is as that write left it. -/
def Guards (s : State) : Prop :=
  match s.phase with
  | .idle => True
  | .read _ => s.late = false
  | .paused _ => s.late = false
  | .guarded _ guard =>
    if s.late then guard < s.row.settingsVersion ∧ s.left = some s.row.copyingEnabled
    else s.row.settingsVersion = guard
  | .retrying guard =>
    if s.late then guard < s.row.settingsVersion ∧ s.left = some s.row.copyingEnabled
    else s.row.settingsVersion = guard ∨ guard < s.row.settingsVersion ∧ s.row.copyingEnabled = true
  | .finished => True

variable {s s' : State}

theorem restoreIfUnchanged_moved {guard : ℕ} (h : guard < row.settingsVersion) :
    row.restoreIfUnchanged guard = row := if_neg h.ne'

theorem restoreIfUnchanged_same {guard : ℕ} (h : row.settingsVersion = guard) :
    row.restoreIfUnchanged guard = row.update ⟨some true, none⟩ := if_pos h

theorem guards_put {u : SettingsUpdate} (h : s.Guards) (hf : fire (.put u) s = some s') : s'.Guards := by
  simp only [fire] at hf
  split_ifs at hf
  cases hf
  unfold Guards at h ⊢
  cases hp : s.phase with
  | idle | finished => trivial
  | read was | paused was =>
    simp only [hp] at h
    simp [h, Phase.isGuarded]
  | guarded was guard | retrying guard =>
    simp only [hp, Phase.isGuarded, Bool.or_true, if_true] at h ⊢
    refine ⟨?_, trivial⟩
    show guard < s.row.settingsVersion + 1
    split_ifs at h <;> omega

theorem guards_statement (h : s.Guards) (hf : s.statement = some s') : s'.Guards := by
  unfold statement at hf
  unfold Guards at h
  cases hp : s.phase with
  | idle =>
    simp only [hp] at hf
    cases hf
    rfl
  | read was =>
    simp only [hp] at hf h
    cases hf
    exact h
  | paused was =>
    simp only [hp] at hf h
    cases hf
    show if s.late = true then _ else _
    rw [h]
    rfl
  | guarded was guard =>
    cases was <;> simp only [hp] at hf <;> obtain rfl := Option.some.inj hf <;> trivial
  | retrying guard =>
    simp only [hp] at hf
    cases hf
    trivial
  | finished =>
    simp only [hp] at hf
    cases hf

theorem guards_raised {took : Bool} (h : s.Guards) (hf : s.raised took = some s') : s'.Guards := by
  unfold raised at hf
  unfold Guards at h
  cases hp : s.phase with
  | guarded was guard =>
    cases was with
    | false =>
      simp only [hp] at hf
      cases hf
    | true =>
      simp only [hp] at hf h
      cases hf
      show if s.late = true then _ else _
      split_ifs at h ⊢ with hl ht
      · -- an operator has written: nothing is restored
        rw [restoreIfUnchanged_moved h.1]
        exact h
      · exact h
      · rw [restoreIfUnchanged_same h]
        exact .inr ⟨by show guard < s.row.settingsVersion + 1; omega, rfl⟩
      · exact .inl h
  | finished =>
    simp only [hp] at hf
    cases hf
  | _ =>
    simp only [hp] at hf
    cases hf
    trivial

theorem Guards.step (a : Action) (h : s.Guards) (hf : fire a s = some s') : s'.Guards := by
  cases a with
  | put u => exact guards_put h hf
  | closeAll => exact guards_statement h hf
  | raise took => exact guards_raised h hf

/-- **What a restore does.**  It puts copying on, unless an operator has written since the version was read. -/
theorem Guards.restore (h : s.Guards) (hr : s.restore = some row) :
    if s.late then row = s.row ∧ s.left = some s.row.copyingEnabled else row.copyingEnabled = true := by
  unfold State.restore at hr
  unfold Guards at h
  cases hp : s.phase with
  | guarded was guard =>
    cases was with
    | false =>
      simp only [hp] at hr
      cases hr
    | true =>
      simp only [hp] at hr h
      cases hr
      split_ifs at h ⊢ with hl
      · exact ⟨restoreIfUnchanged_moved h.1, h.2⟩
      · rw [restoreIfUnchanged_same h]
        rfl
  | retrying guard =>
    simp only [hp] at hr h
    cases hr
    split_ifs at h ⊢ with hl
    · exact ⟨restoreIfUnchanged_moved h.1, h.2⟩
    · rcases h with h | ⟨hlt, hon⟩
      · rw [restoreIfUnchanged_same h]
        rfl
      · rw [restoreIfUnchanged_moved hlt]
        exact hon
  | _ =>
    simp only [hp] at hr
    cases hr

theorem restore_of_fire {a : Action} (hr : s.restoring = true) (ha : a.carriedOut = true)
    (hf : fire a s = some s') : s.restore = some s'.row := by
  unfold restoring State.restore at hr
  unfold State.restore
  cases a with
  | put u => cases ha
  | closeAll =>
    simp only [fire, statement] at hf
    split at hf <;> simp_all <;> obtain rfl := hf <;> rfl
  | raise took =>
    obtain rfl : took = true := ha
    simp only [fire, raised] at hf
    split at hf <;> simp_all <;> obtain rfl := hf <;> rfl

/-- **When the restore leaves copying as the operator left it**: if the last write since the org was read has left
copying off, then it has committed after the version was read. -/
theorem restore_leaves_settings {start : State} {a : Action} (h0 : start.phase = .idle)
    (h : Machine.Run fire (fun _ _ => True) start s) (hr : s.restoring = true) (ha : a.carriedOut = true)
    (hf : fire a s = some s') :
    (∀ b, s.left = some b → s'.row.copyingEnabled = b) ↔ (s.left = some false → s.late = true) := by
  have hstart : start.Guards := by
    unfold Guards
    rw [h0]
    trivial
  have hg : s.Guards := h.invariant hstart fun a _ _ _ hi hf => hi.step a hf
  have hspec := hg.restore (restore_of_fire hr ha hf)
  split_ifs at hspec with hl
  · -- the row is as it was, and a late write is the last
    obtain ⟨hrow, hleft⟩ := hspec
    refine ⟨fun _ _ => hl, fun _ b hb => ?_⟩
    rw [hrow]
    exact Option.some.inj (hleft.symm.trans hb)
  · constructor
    · intro hkept hoff
      cases (hkept false hoff).symm.trans hspec
    · intro hcond b hb
      cases b with
      | true => exact hspec
      | false => exact absurd (hcond hb) hl

/-- An org that copies. -/
def sampleStart : State := ⟨⟨true, false, 3⟩, .idle, none, false⟩

/-- STOP COPYING during the flatten. -/
theorem restore_leaves_settings_stopped : ∃ s s' : State, fire .closeAll s = some s' ∧ s.restoring = true ∧
    s.left = some false ∧ s'.row.copyingEnabled = false := by
  obtain ⟨s, hrun, hleft, hlate, hr, hsome⟩ : ∃ s : State, Machine.Run fire (fun _ _ => True) sampleStart s ∧
      s.left = some false ∧ s.late = true ∧ s.restoring = true ∧ (fire .closeAll s).isSome = true :=
    Machine.exists_run [.closeAll, .closeAll, .closeAll, .put ⟨some false, none⟩] sampleStart (by decide)
  obtain ⟨s', hf⟩ := Option.isSome_iff_exists.1 hsome
  have hkept := restore_leaves_settings (a := .closeAll) rfl hrun hr rfl hf
  exact ⟨s, s', hf, hr, hleft, hkept.2 (fun _ => hlate) false hleft⟩

/-- STOP COPYING between the read of the org and the pause: the restore puts copying on again. -/
theorem restore_overrides_stop : ∃ s : State, Machine.Run fire (fun _ _ => True) sampleStart s ∧
    s.restoring = true ∧ s.left = some false ∧
    (fire .closeAll s).map (fun s' => s'.row.copyingEnabled) = some true :=
  Machine.exists_run [.closeAll, .put ⟨some false, none⟩, .closeAll, .closeAll] sampleStart (by decide)

end State

end Copier.Restore
