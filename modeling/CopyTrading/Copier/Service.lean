import CopyTrading.Copier.Decision

/-!
# Copier.Service — dispatching intents and handling reports (`engine/dispatch.py`, `engine/service.py`)

`Service` is what the copier keeps between events: the mappings, and the master's protection levels
for copies that do not exist yet.  A master event is remembered, decided and dispatched; a report of
a slave's platform updates the mappings and may send the remembered levels to the new copy.
-/

namespace Copier

/-! ### Dispatch -/

/-- The copy gates of an org. -/
structure Org where
  copyingEnabled : Bool
  dryRun : Bool

/-- Copying enabled, requests really sent. -/
def Org.live : Org := ⟨true, false⟩

/-- Both gates let requests through. -/
def Org.copies (g : Org) : Bool := g.copyingEnabled && !g.dryRun

/-- `_create_mapping`; `none` when the insert raises. -/
def createMapping (i : SlaveIntent) (s : Mappings) : Option Mappings :=
  match i with
  | .openMarket i =>
    some (createPositionMapping i.masterPositionId i.slaveAccountId
      (.cm i.masterPositionId i.slaveAccountId) s)
  | .placePending i =>
    createOrderMapping i.masterOrderId i.slaveAccountId (.co i.masterOrderId i.slaveAccountId) s
  | _ => some s

/-- One intent of `dispatch`: the mappings afterwards, and the request if one is sent. -/
def dispatchOne (org : Org) (i : SlaveIntent) (s : Mappings) : Mappings × List SlaveIntent :=
  match i with
  | .alert _ => (s, [])
  | .linkPendingFill l =>
    ((linkPendingFill l.masterOrderId l.slaveAccountId l.masterPositionId s).getD s, [])
  | i =>
    if org.copyingEnabled then
      match createMapping i s with
      | some s' => (s', if org.dryRun then [] else [i])
      -- the exception is caught per intent and nothing is sent
      | none => (s, [])
    else (s, [])

/-- `dispatch`. -/
def dispatch (org : Org) : List SlaveIntent → Mappings → Mappings × List SlaveIntent
  | [], s => (s, [])
  | i :: is, s =>
    let r := dispatchOne org i s
    let r' := dispatch org is r.1
    (r'.1, r.2 ++ r'.2)

/-! ### The master's protection levels -/

/-- `MAX_REMEMBERED_PROTECTION`. -/
def maxRememberedProtection : ℕ := 2000

/-- `_master_protection`, in insertion order. -/
abbrev Protection : Type := List (ℕ × Levels)

namespace Protection

/-- `dict.get`. -/
def get (d : Protection) (p : ℕ) : Option Levels := d.lookup p

/-- `dict.pop`. -/
def pop (d : Protection) (p : ℕ) : Protection := d.filter fun x => x.1 ≠ p

/-- An assignment to a key in use keeps its place. -/
def set (d : Protection) (p : ℕ) (levels : Levels) : Protection :=
  if d.any fun x => x.1 = p then d.map fun x => if x.1 = p then (p, levels) else x
  else d ++ [(p, levels)]

/-- The branch of `_remember_master_protection` for an event that states levels. -/
def state (d : Protection) (p : ℕ) (levels : Levels) : Protection :=
  if levels = .unset then d.pop p
  else if (d.all fun x => x.1 ≠ p) ∧ maxRememberedProtection ≤ d.length then
    -- the position seen longest ago is dropped
    Protection.set d.tail p levels
  else d.set p levels

end Protection

/-- `_remember_master_protection`. -/
def rememberMasterProtection (d : Protection) : MasterEvent → Protection
  | .positionClosed e => d.pop e.positionId
  | .positionOpened e => d.state e.positionId e.levels
  | .positionSLTPAmended e => d.state e.positionId e.levels
  | _ => d

/-- `_same_level`. -/
def sameLevel (a b : Option ℚ) : Bool :=
  match a, b with
  | none, none => true
  | some x, some y => |x - y| ≤ 1 / 10 ^ 7
  | _, _ => false

/-- `_protect_new_copy`: the amend it dispatches. -/
def protectNewCopy (d : Protection) (a : ℕ) (c : ClientOrderId) (π : ℕ) (current : Levels) :
    List SlaveIntent :=
  match (masterPositionOf c).bind d.get with
  | none => []
  | some levels =>
    if sameLevel levels.stopLoss current.stopLoss ∧ sameLevel levels.takeProfit current.takeProfit
    then []
    else [.amendPositionSLTP ⟨a, π, levels⟩]

/-! ### The service -/

/-- The service: its mappings and the levels it remembers. -/
structure Service where
  mappings : Mappings
  masterProtection : Protection

/-- What the decision core reads. -/
def Service.mappingState (st : Service) : MappingState :=
  ⟨positionEntries st.mappings, orderEntries st.mappings⟩

/-- The dispatcher is given the intents of a handler, and the requests it sends are left. -/
def Service.send (org : Org) (r : Service × List SlaveIntent) : Service × List SlaveIntent :=
  let d := dispatch org r.2 r.1.mappings
  ({ r.1 with mappings := d.1 }, d.2)

/-- The levels are remembered first, then comes the decision. -/
def Service.decided (slaves : List SlaveConfig) (st : Service) (e : MasterEvent) : Service × List SlaveIntent :=
  ({ st with masterProtection := rememberMasterProtection st.masterProtection e },
    decide e st.mappingState slaves)

/-- `_decide_dispatch_audit`. -/
def Service.onMasterEvent (org : Org) (slaves : List SlaveConfig) (st : Service) (e : MasterEvent) :
    Service × List SlaveIntent :=
  Service.send org (st.decided slaves e)

/-- A slave's fill; `closedVolume` set means that it closed (part of) a position. -/
structure SlaveFill where
  clientOrderId : Option ClientOrderId
  positionId : ℕ
  filledVolume : ℕ
  closedVolume : Option ℕ
  orderId : Option ℕ
  /-- The levels the platform reports for the copy (MT5 does, cTrader does not). -/
  levels : Levels
  deriving DecidableEq

/-- A client order id that starts with `cm`. -/
def ClientOrderId.isMarketCopy : ClientOrderId → Bool
  | .cm _ _ => true
  | _ => false

/-- The mapping a close names: only market copies are pinned. -/
def SlaveFill.pinned (fill : SlaveFill) : Option ClientOrderId :=
  fill.clientOrderId.filter ClientOrderId.isMarketCopy

/-- What `handle_slave_fill` books for account `a`, and the intents it gives to the dispatcher. -/
def Service.bookSlaveFill (a : ℕ) (fill : SlaveFill) (st : Service) : Service × List SlaveIntent :=
  match fill.closedVolume with
  | some k =>
    ({ st with mappings := reducePositionMapping a fill.positionId k fill.pinned st.mappings }, [])
  | none =>
    match fill.pinned with
    | some c =>
      match activatePositionMapping a c fill.positionId fill.filledVolume st.mappings with
      | some s =>
        ({ st with mappings := s }, protectNewCopy st.masterProtection a c fill.positionId fill.levels)
      | none => (st, [])
    | none =>
      match activatePendingFill a fill.orderId fill.positionId fill.filledVolume st.mappings with
      | some s => ({ st with mappings := s }, [])
      | none => (st, [])

/-- `handle_slave_fill` of account `a`. -/
def Service.handleSlaveFill (org : Org) (a : ℕ) (fill : SlaveFill) (st : Service) :
    Service × List SlaveIntent :=
  Service.send org (st.bookSlaveFill a fill)

/-- `handle_slave_order_accepted`: only a `co` client order id is linked. -/
def Service.handleSlaveOrderAccepted (a : ℕ) (c : Option ClientOrderId) (ω : ℕ) (st : Service) :
    Service :=
  match c with
  | some (.co o a') =>
    { st with mappings := (activateOrderMapping a (.co o a') ω st.mappings).getD st.mappings }
  | _ => st

/-- `handle_slave_order_cancelled`. -/
def Service.handleSlaveOrderCancelled (a ω : ℕ) (st : Service) : Service :=
  { st with mappings := (closeOrderMapping a ω st.mappings).getD st.mappings }

/-- `handle_slave_rejection`; the outbox's `_give_up` does the same to the mapping. -/
def Service.handleSlaveRejection (a : ℕ) (c : Option ClientOrderId) (st : Service) : Service :=
  match c with
  | some c => { st with mappings := (failMapping a c st.mappings).getD st.mappings }
  | none => st

/-! ### What a report does to one row -/

/-- A report of a slave's platform. -/
inductive Report where
  | accepted (c : Option ClientOrderId) (ω : ℕ)
  | filled (fill : SlaveFill)
  | cancelled (ω : ℕ)
  deriving DecidableEq

/-- What a report books, and the intents it gives to the dispatcher. -/
def Service.bookReport (a : ℕ) (r : Report) (st : Service) : Service × List SlaveIntent :=
  match r with
  | .accepted c ω => (st.handleSlaveOrderAccepted a c ω, [])
  | .filled fill => st.bookSlaveFill a fill
  | .cancelled ω => (st.handleSlaveOrderCancelled a ω, [])

/-- `_handle_slave_event`, for an enabled slave. -/
def Service.handleReport (org : Org) (a : ℕ) (r : Report) (st : Service) :
    Service × List SlaveIntent :=
  Service.send org (st.bookReport a r)

/-- The rows a report updates. -/
def Report.hits (a : ℕ) (m : Mapping) : Report → Bool
  | .accepted (some (.co o a')) _ => m.isCopy a (.co o a')
  | .accepted _ _ => false
  | .filled fill =>
    match fill.closedVolume with
    | some _ => m.isReduced a fill.positionId fill.pinned
    | none =>
      match fill.pinned with
      | some c => m.isCopy a c
      | none => m.isOrder a fill.orderId
  | .cancelled ω => m.isOrder a (some ω)

/-- What it writes there. -/
def Report.sets (m : Mapping) : Report → Mapping
  | .accepted _ ω => { m with slaveOrderId := some ω, status := .active }
  | .filled fill =>
    match fill.closedVolume with
    | some k => m.reduce k
    | none =>
      match fill.pinned with
      | some _ => m.accumulate fill.positionId fill.filledVolume
      | none => { m with held := some ⟨fill.positionId, fill.filledVolume⟩, status := .active }
  | .cancelled _ => { m with status := .closed }

/-- A report, row by row. -/
def bookRow (a : ℕ) (r : Report) (m : Mapping) : Mapping := if r.hits a m then r.sets m else m

section Book

variable {org : Org} {a : ℕ} {st : Service} {c : ClientOrderId} {s : Mappings}

/-- Amends create no mapping. -/
theorem dispatch_amend (i : AmendPositionSLTP) : dispatch org [.amendPositionSLTP i] s =
      (s, if org.copyingEnabled && !org.dryRun then [.amendPositionSLTP i] else []) := by
  cases org with
  | mk en dry => cases en <;> cases dry <;> rfl

theorem dispatch_protect (d : Protection) (π : ℕ) (current : Levels) :
    (dispatch org (protectNewCopy d a c π current) s).1 = s := by
  unfold protectNewCopy
  split
  · rfl
  · split_ifs
    · rfl
    · rw [dispatch_amend]

/-- What is sent was given to the dispatcher, once and in order, and passed the gates. -/
theorem dispatch_sent (org : Org) (is : List SlaveIntent) (s : Mappings) :
    (dispatch org is s).2.Sublist is ∧ ((dispatch org is s).2 ≠ [] → org.copies = true) := by
  have hone : ∀ i s, (dispatchOne org i s).2 = [] ∨ (dispatchOne org i s).2 = [i] ∧ org.copies = true := by
    intro i s
    obtain ⟨en, dry⟩ := org
    cases i with
    | alert x | linkPendingFill l => exact .inl rfl
    | _ =>
      simp only [dispatchOne, Org.copies]
      cases createMapping _ s with
      | none => cases en <;> simp
      | some s' => cases en <;> cases dry <;> simp
  induction is generalizing s with
  | nil => exact ⟨.slnil, fun h => absurd rfl h⟩
  | cons i is ih =>
    obtain ⟨hsub, hgate⟩ := ih (dispatchOne org i s).1
    rw [dispatch]
    rcases hone i s with hnil | ⟨hi, hc⟩
    · simp only [hnil, List.nil_append]
      exact ⟨hsub.cons i, hgate⟩
    · simp only [hi, List.singleton_append]
      exact ⟨hsub.cons_cons i, fun _ => hc⟩

/-- A request is an intent that the gates let through. -/
theorem dispatch_gated {i : SlaveIntent} {is : List SlaveIntent} (h : i ∈ (dispatch org is s).2) :
    i ∈ is ∧ org.copies = true := by
  obtain ⟨hsub, hgate⟩ := dispatch_sent org is s
  exact ⟨hsub.subset h, hgate (List.ne_nil_of_mem h)⟩

/-- A report makes the service dispatch at most the amend of the position that was filled. -/
theorem bookReport_amend (st : Service) (a : ℕ) (r : Report) :
    (st.bookReport a r).2.length ≤ 1 ∧ ∀ i ∈ (st.bookReport a r).2,
      ∃ fill levels, r = .filled fill ∧ i = .amendPositionSLTP ⟨a, fill.positionId, levels⟩ := by
  cases r with
  | accepted c ω | cancelled ω => exact ⟨Nat.zero_le _, by simp [Service.bookReport]⟩
  | filled fill =>
    simp only [Service.bookReport, Service.bookSlaveFill, protectNewCopy]
    repeat' split
    all_goals simp

section Fill

variable {fill : SlaveFill}

theorem handleSlaveFill_close {k : ℕ} (hk : fill.closedVolume = some k) :
    (st.handleSlaveFill org a fill).1.mappings =
      reducePositionMapping a fill.positionId k fill.pinned st.mappings := by
  simp [Service.handleSlaveFill, Service.send, Service.bookSlaveFill, hk, dispatch]

theorem handleSlaveFill_market (hk : fill.closedVolume = none) (hp : fill.pinned = some c) :
    (st.handleSlaveFill org a fill).1.mappings =
      (activatePositionMapping a c fill.positionId fill.filledVolume st.mappings).getD st.mappings := by
  simp only [Service.handleSlaveFill, Service.send, Service.bookSlaveFill, hk, hp]
  cases activatePositionMapping a c fill.positionId fill.filledVolume st.mappings with
  | none => rfl
  | some s => exact dispatch_protect _ _ _

theorem handleSlaveFill_pending (hk : fill.closedVolume = none) (hp : fill.pinned = none) :
    (st.handleSlaveFill org a fill).1.mappings =
      (activatePendingFill a fill.orderId fill.positionId fill.filledVolume st.mappings).getD
        st.mappings := by
  simp only [Service.handleSlaveFill, Service.send, Service.bookSlaveFill, hk, hp]
  cases activatePendingFill a fill.orderId fill.positionId fill.filledVolume st.mappings with
  | none | some s => rfl

theorem bookRow_close {k : ℕ} (hk : fill.closedVolume = some k) : bookRow a (.filled fill) =
      fun m => if m.isReduced a fill.positionId fill.pinned then m.reduce k else m := by
  funext m
  simp [bookRow, Report.hits, Report.sets, hk]

theorem bookRow_market (hk : fill.closedVolume = none) (hp : fill.pinned = some c) :
    bookRow a (.filled fill) =
      fun m => if m.isCopy a c then m.accumulate fill.positionId fill.filledVolume else m := by
  funext m
  simp [bookRow, Report.hits, Report.sets, hk, hp]

theorem bookRow_pending (hk : fill.closedVolume = none) (hp : fill.pinned = none) :
    bookRow a (.filled fill) = fun m => if m.isOrder a fill.orderId then
      { m with held := some ⟨fill.positionId, fill.filledVolume⟩, status := .active } else m := by
  funext m
  simp [bookRow, Report.hits, Report.sets, hk, hp]

end Fill

/-- **A report acts on each row alone.** -/
theorem find_handleReport (r : Report) :
    (st.handleReport org a r).1.mappings.find c = (st.mappings.find c).map (bookRow a r) := by
  cases r with
  | accepted x ω =>
    match x with
    | some (.co o a') => exact find_updateFound _
    | some (.cm _ _) => exact Option.map_id'.symm
    | some (.other _) => exact Option.map_id'.symm
    | none => exact Option.map_id'.symm
  | cancelled ω => exact find_updateFound _
  | filled fill =>
    show (st.handleSlaveFill org a fill).1.mappings.find c = _
    cases hk : fill.closedVolume with
    | some k =>
      rw [handleSlaveFill_close hk, bookRow_close hk]
      exact find_updateWhere _
    | none =>
      cases hp : fill.pinned with
      | some x =>
        rw [handleSlaveFill_market hk hp, bookRow_market hk hp]
        exact find_updateFound _
      | none =>
        rw [handleSlaveFill_pending hk hp, bookRow_pending hk hp]
        exact find_updateFound _

end Book

end Copier
