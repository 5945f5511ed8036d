import CopyTrading.Mt5.ExecutedOpen
import CopyTrading.Mt5.NetBooking

/-!
# Mt5.CopyShare — what the copies of a netting follower add up to

Each active mapping has a share in the net volume of its symbol, on the side of its open command.  A report that
acknowledges market orders of different copies is a list of jobs, each of which moves the share of one copy by its
volume; a deal that is named by an acknowledgement of the same report moves nothing.
-/

namespace Copier.Mt5

open List Option CommandRow

/-! ### Shares -/

/-- What a mapping of the account contributes to the net volume of a symbol. -/
def share (account : ℕ) (rows : List CommandRow) (symbol : String) (m : Mapping) : ℤ :=
  if m.slaveAccountId = account ∧ m.status = .active then
    ((openPayload rows m.clientOrderId).map fun x => if x.1 = symbol then signed x.2 m.volume else 0).getD 0
  else 0

/-- The signed sum of the active copies of a symbol. -/
def copied (account : ℕ) (s : Server) (symbol : String) : ℤ :=
  s.service.mappings.sum (share account s.rows symbol)

/-- An acknowledged market order of a copy. -/
structure Job where
  clientOrderId : ClientOrderId
  closing : Bool
  position : ℕ
  volume : ℕ
  deriving DecidableEq

namespace Job

variable {account : ℕ} {rows : List CommandRow} {symbol : String} {ms : Mappings} {j : Job}
  {m : Mapping} {m' : Mapping}

/-- What a job writes into a row. -/
def sets (account : ℕ) (j : Job) (m : Mapping) : Mapping :=
  if j.closing then if m.isReduced account j.position (some j.clientOrderId) then m.reduce j.volume else m
  else if m.isCopy account j.clientOrderId then m.accumulate j.position j.volume else m

/-- The statement of a job. -/
def apply (account : ℕ) (j : Job) (ms : Mappings) : Mappings :=
  if j.closing then reducePositionMapping account j.position j.volume (some j.clientOrderId) ms
  else (activatePositionMapping account j.clientOrderId j.position j.volume ms).getD ms

theorem rows_apply : (j.apply account ms).rows = ms.rows.map (j.sets account) := by
  unfold apply sets
  cases j.closing with
  | true => rfl
  | false => exact rows_updateFound _

theorem sets_key (m : Mapping) : (j.sets account m).clientOrderId = m.clientOrderId := by
  unfold sets
  split_ifs <;> rfl

theorem find_apply (c : ClientOrderId) : (j.apply account ms).find c = (ms.find c).map (j.sets account) := by
  unfold Table.find
  rw [rows_apply, find?_map]
  congr 2
  funext m
  simp only [Function.comp_apply, key_mapping, sets_key]

theorem sets_other (h : m.clientOrderId ≠ j.clientOrderId) : j.sets account m = m := by
  unfold sets
  have hc : m.isCopy account j.clientOrderId = false := by simp [Mapping.isCopy, h]
  have hr : m.isReduced account j.position (some j.clientOrderId) = false := by simp [Mapping.isReduced, h]
  simp only [hc, hr, Bool.false_eq_true, if_false, ite_self]

/-- The copy is there: without a volume unless it is active, and with enough of it for a close. -/
structure Ready (account : ℕ) (rows : List CommandRow) (ms : Mappings) (j : Job) (m : Mapping) : Prop where
  found : ms.find j.clientOrderId = some m
  slaveAccountId : m.slaveAccountId = account
  idle : m.status ≠ .active → m.volume = 0
  enough : j.closing = true → m.status = .active ∧ j.volume ≤ m.volume
  side : (openPayload rows j.clientOrderId).isSome = true
  positive : 0 < j.volume

section

variable (h : Ready account rows ms j m)
include h

theorem Ready.mem : m ∈ ms.rows := (Table.find_eq_some h.found).1

theorem Ready.key : m.clientOrderId = j.clientOrderId := (Table.find_eq_some h.found).2

/-- The row after the job. -/
theorem Ready.sets : j.sets account m =
    if j.closing then m.reduce j.volume else m.accumulate j.position j.volume := by
  have hkey := h.key
  have hcopy : m.isCopy account j.clientOrderId = true := by simp [Mapping.isCopy, hkey, h.slaveAccountId]
  unfold Job.sets
  cases hx : j.closing with
  | true =>
    have hred : m.isReduced account j.position (some j.clientOrderId) = true := by
      simp [Mapping.isReduced, hkey, h.slaveAccountId, (h.enough hx).1]
    simp [hred]
  | false => simp [hcopy]

end

/-- What a job adds to the net volume of a symbol. -/
def share (rows : List CommandRow) (symbol : String) (j : Job) : ℤ :=
  ((openPayload rows j.clientOrderId).map fun x =>
    if x.1 = symbol then signed (if j.closing then Side.opposite x.2 else x.2) j.volume else 0).getD 0

/-- A closed copy has been reduced to nothing. -/
theorem volume_of_closed {v : ℕ} (h : (m.reduce v).status ≠ .active) : m.volume - v = 0 := by
  cases hheld : m.held with
  | none => simp [Mapping.volume, hheld]
  | some held =>
    simp only [Mapping.reduce, hheld, any_some, map_some] at h
    simp only [Mapping.volume, hheld, map_some, getD_some]
    by_contra hne
    exact h (if_neg (by simp only [decide_eq_true_eq]; omega))

theorem volume_accumulate (π v : ℕ) (m : Mapping) : (m.accumulate π v).volume = m.volume + v := rfl

section

variable (h : Ready account rows ms j m)
include h

/-- **A job moves the share of its copy by its own volume.** -/
theorem Ready.share_sets :
    Mt5.share account rows symbol (j.sets account m) = Mt5.share account rows symbol m + j.share rows symbol := by
  have hkey := h.key
  obtain ⟨⟨symbol', side⟩, hside⟩ := isSome_iff_exists.1 h.side
  -- a copy that is not active has nothing to share
  have hbefore : Mt5.share account rows symbol m = if symbol' = symbol then signed side m.volume else 0 := by
    unfold Mt5.share
    rw [hkey, hside]
    by_cases hact : m.status = .active
    · rw [if_pos ⟨h.slaveAccountId, hact⟩]
      rfl
    · rw [if_neg fun hc => hact hc.2, h.idle hact]
      simp
  rw [hbefore, h.sets]
  unfold Job.share
  rw [hside]
  simp only [map_some, getD_some]
  cases hx : j.closing with
  | false =>
    simp only [Bool.false_eq_true, if_false]
    unfold Mt5.share
    have hkey' : (m.accumulate j.position j.volume).clientOrderId = j.clientOrderId := hkey
    rw [if_pos ⟨h.slaveAccountId, rfl⟩, hkey', hside, volume_accumulate]
    simp only [map_some, getD_some]
    split_ifs
    · exact signed_add side _ _
    · rfl
  | true =>
    simp only [if_true, signed_opposite]
    have hle := (h.enough hx).2
    have hafter : Mt5.share account rows symbol (m.reduce j.volume) =
        if symbol' = symbol then signed side (m.volume - j.volume) else 0 := by
      unfold Mt5.share
      have hkey' : (m.reduce j.volume).clientOrderId = j.clientOrderId := hkey
      rw [hkey', hside, Server.volume_reduce]
      by_cases hact : (m.reduce j.volume).status = .active
      · rw [if_pos ⟨h.slaveAccountId, hact⟩]
        rfl
      · rw [if_neg fun hc => hact hc.2, volume_of_closed hact]
        simp
    rw [hafter]
    split_ifs
    · cases side <;> simp only [signed] <;> omega
    · rfl

/-- **A job moves the sum of the shares by its own.** -/
theorem Ready.sum :
    (j.apply account ms).sum (Mt5.share account rows symbol) =
      ms.sum (Mt5.share account rows symbol) + j.share rows symbol := by
  have hkey := h.key
  have hrow : ∀ m' ∈ ms.rows, Mt5.share account rows symbol (j.sets account m') =
      Mt5.share account rows symbol m' + if m'.clientOrderId = j.clientOrderId then j.share rows
        symbol else 0 := by
    intro m' hm'
    by_cases hc : m'.clientOrderId = j.clientOrderId
    · rw [Table.eq_of_find h.found hm' hc, h.share_sets, if_pos hkey]
    · rw [if_neg hc, add_zero, sets_other hc]
  have hone : (ms.rows.map fun m' =>
      if m'.clientOrderId = j.clientOrderId then j.share rows symbol else 0).sum = j.share rows symbol := by
    rw [sum_map_single ms.nodup h.mem, if_pos hkey]
    intro m' _ hne
    exact if_neg fun hc => hne (hc.trans hkey.symm)
  unfold Table.sum
  rw [rows_apply, List.map_map, ← hone, ← List.sum_map_add]
  exact congrArg List.sum (List.map_congr_left hrow)

/-- A job rewrites one row. -/
theorem Ready.mem_apply (hm' : m' ∈ (j.apply account ms).rows) :
    m' ∈ ms.rows ∨ m' = j.sets account m ∧ m'.clientOrderId = j.clientOrderId := by
  rw [rows_apply] at hm'
  obtain ⟨m₀, hm₀, rfl⟩ := mem_map.1 hm'
  by_cases hc : m₀.clientOrderId = j.clientOrderId
  · exact .inr ⟨by rw [Table.eq_of_find h.found hm₀ hc], (sets_key m₀).trans hc⟩
  · rw [sets_other hc]
    exact .inl hm₀

theorem Ready.sets_slaveAccountId : (j.sets account m).slaveAccountId = account := by
  rw [h.sets, ← h.slaveAccountId]
  split_ifs <;> rfl

end

/-- A job of another copy does not matter. -/
theorem Ready.after {j' : Job} (h : Ready account rows ms j' m')
    (hne : j'.clientOrderId ≠ j.clientOrderId) : Ready account rows (j.apply account ms) j' m' := by
  refine { h with found := ?_ }
  have hkey := h.key
  rw [find_apply, h.found, map_some, sets_other (hkey ▸ hne)]

/-- A job changes its own mapping. -/
theorem Ready.ne (h : Ready account rows ms j m) : j.sets account m ≠ m := by
  rw [h.sets]
  have hpos := h.positive
  intro heq
  have hvol := congrArg Mapping.volume heq
  split_ifs at hvol with hx
  · rw [Server.volume_reduce] at hvol
    have hle := (h.enough hx).2
    omega
  · rw [volume_accumulate] at hvol
    omega

end Job

/-! ### Which mappings a statement changes -/

/-- The mappings that two states of the table differ in. -/
def changes (ms ms' : Mappings) : List ClientOrderId :=
  (ms.rows.filter fun m => ms'.find m.clientOrderId ≠ some m).map Mapping.clientOrderId

theorem changes_self (ms : Mappings) : changes ms ms = [] := by
  unfold changes
  rw [filter_eq_nil_iff.mpr, map_nil]
  intro m hm
  have hfind : ms.find m.clientOrderId = some m := Table.find_of_mem hm
  simp [hfind]

theorem filter_key {ms : Mappings} {c : ClientOrderId} {m : Mapping} (h : ms.find c = some m) :
    ms.rows.filter (fun m' => m'.clientOrderId = c) = [m] := by
  obtain ⟨hmem, hkey⟩ := Table.find_eq_some h
  have hperm : (ms.rows.filter fun m' => m'.clientOrderId = c).Perm [m] := by
    refine (perm_ext_iff_of_nodup ((Nodup.of_map _ ms.nodup).filter _) (nodup_singleton m)).2 fun m' => ?_
    rw [mem_filter, mem_singleton, decide_eq_true_eq]
    constructor
    · exact fun hm' => Table.eq_of_find h hm'.1 hm'.2
    · rintro rfl
      exact ⟨hmem, hkey⟩
  exact perm_singleton.1 hperm

namespace Job

variable {account : ℕ} {rows : List CommandRow} {symbol : String} {ms : Mappings} {j : Job}
  {m : Mapping} {jobs : List Job}

/-- A job changes one mapping. -/
theorem Ready.changes (h : Ready account rows ms j m) : changes ms (j.apply account ms) = [j.clientOrderId] := by
  have hiff : ∀ m' ∈ ms.rows, (Decidable.decide ((j.apply account ms).find m'.clientOrderId ≠ some m')) =
      Decidable.decide (m'.clientOrderId = j.clientOrderId) := by
    intro m' hm'
    have hfind : ms.find m'.clientOrderId = some m' := Table.find_of_mem hm'
    rw [find_apply, hfind, map_some, decide_eq_decide, Ne, some.injEq]
    constructor
    · exact fun hne => by_contra fun hc => hne (sets_other hc)
    · intro hc
      rw [Table.eq_of_find h.found hm' hc]
      exact h.ne
  unfold Mt5.changes
  rw [filter_congr hiff, filter_key h.found, map_singleton, h.key]

/-- All jobs of a report. -/
def applyAll (account : ℕ) (jobs : List Job) (ms : Mappings) : Mappings :=
  jobs.foldl (fun ms j => j.apply account ms) ms

/-- The jobs of other copies wait for the first one. -/
theorem ready_tail (hj : ∀ j' ∈ j :: jobs, ∃ m, Ready account rows ms j' m)
    (hne : j.clientOrderId ∉ jobs.map Job.clientOrderId) :
    ∀ j' ∈ jobs, ∃ m, Ready account rows (j.apply account ms) j' m := by
  intro j' hj'
  obtain ⟨m', hm'⟩ := hj j' (mem_cons_of_mem j hj')
  exact ⟨m', hm'.after fun hc => hne (hc ▸ mem_map_of_mem hj')⟩

/-- What each job keeps, all of them keep. -/
theorem applyAll_invariant {P : Mappings → Prop} (h : P ms) (hnd : (jobs.map Job.clientOrderId).Nodup)
    (hj : ∀ j ∈ jobs, ∃ m, Ready account rows ms j m)
    (hstep : ∀ j ∈ jobs, ∀ ms m, Ready account rows ms j m → P ms → P (j.apply account ms)) :
    P (applyAll account jobs ms) := by
  induction jobs generalizing ms with
  | nil => exact h
  | cons j jobs ih =>
    rw [map_cons, nodup_cons] at hnd
    obtain ⟨m, hm⟩ := hj j mem_cons_self
    exact ih (hstep j mem_cons_self ms m hm h) hnd.2 (ready_tail hj hnd.1)
      fun j' hj' => hstep j' (mem_cons_of_mem j hj')

theorem sum_applyAll (hnd : (jobs.map Job.clientOrderId).Nodup)
    (h : ∀ j ∈ jobs, ∃ m, Ready account rows ms j m) :
    (applyAll account jobs ms).sum (Mt5.share account rows symbol) =
      ms.sum (Mt5.share account rows symbol) + (jobs.map (Job.share rows symbol)).sum := by
  induction jobs generalizing ms with
  | nil => simp [applyAll]
  | cons j jobs ih =>
    rw [map_cons, nodup_cons] at hnd
    obtain ⟨m, hm⟩ := h j mem_cons_self
    show (applyAll account jobs (j.apply account ms)).sum _ = _
    rw [ih hnd.2 (ready_tail h hnd.1), hm.sum, map_cons, sum_cons, add_assoc]

end Job

/-! ### The mappings of a follower that only trades copies -/

/-- A mapping is of the account in its client order id, has a volume only while it is active, and then an open
command that tells its side. -/
structure Sound (account : ℕ) (rows : List CommandRow) (ms : Mappings) : Prop where
  placed : ∀ m ∈ ms.rows, m.clientOrderId.account = some m.slaveAccountId
  idle : ∀ m ∈ ms.rows, m.slaveAccountId = account → m.status ≠ .active → m.volume = 0
  sided : ∀ m ∈ ms.rows, m.slaveAccountId = account → m.status = .active →
    (openPayload rows m.clientOrderId).isSome = true

section Sound

variable {account : ℕ} {rows : List CommandRow} {ms : Mappings}

theorem Sound.apply {j : Job} {m : Mapping} (h : Sound account rows ms) (hj : j.Ready account rows ms m) :
    Sound account rows (j.apply account ms) := by
  refine ⟨fun m' hm' => ?_, fun m' hm' hm'acc hst => ?_, fun m' hm' hm'acc hst => ?_⟩
  · rcases hj.mem_apply hm' with hm' | ⟨rfl, hc⟩
    · exact h.placed m' hm'
    · rw [Job.sets_key, hj.sets_slaveAccountId, ← hj.slaveAccountId]
      exact h.placed m hj.mem
  · rcases hj.mem_apply hm' with hm' | ⟨rfl, hc⟩
    · exact h.idle m' hm' hm'acc hst
    · rw [hj.sets] at hst ⊢
      split_ifs at hst ⊢ with hx
      · rw [Server.volume_reduce, Job.volume_of_closed hst]
      · cases hst rfl
  · rcases hj.mem_apply hm' with hm' | ⟨rfl, hc⟩
    · exact h.sided m' hm' hm'acc hst
    · rw [hc]
      exact hj.side

theorem Sound.applyAll {jobs : List Job} (h : Sound account rows ms) (hnd : (jobs.map Job.clientOrderId).Nodup)
    (hj : ∀ j ∈ jobs, ∃ m, j.Ready account rows ms m) : Sound account rows (Job.applyAll account jobs ms) :=
  Job.applyAll_invariant h hnd hj fun _ _ _ _ hready hs => hs.apply hready

end Sound

/-! ### A report of acknowledged market orders -/

namespace Server

variable {cfg : ServerConfig} {gates : Org} {now : ℚ} {account : ℕ} {report : FollowerReport}
  {s : Server} {o : AckOutcome} {rows : List CommandRow} {os outcomes : List AckOutcome}
  {d : ReportDeal}

/-- The market order of a copy that an outcome is about. -/
def jobOf (report : FollowerReport) (o : AckOutcome) : Option Job :=
  match o.kind, o.clientOrderId with
  | .openMarket, some c => (ticketOf report o).map fun π => ⟨c, false, π, o.volume.getD 0⟩
  | .closePosition, some c =>
    some ⟨c, true, (o.position.filter (· ≠ 0)).getD (((dealOf report o).map ReportDeal.position).getD 0),
      o.volume.getD 0⟩
  | _, _ => none

/-- The outcome of an amend, or of a market order of a copy that was executed. -/
inductive Ordinary (report : FollowerReport) (o : AckOutcome) : Prop where
  | amend : o.kind = .amend → Ordinary report o
  | opened (c : ClientOrderId) (π : ℕ) : o.kind = .openMarket → o.ok = true → o.clientOrderId = some c →
    c.isMarketCopy = true → ticketOf report o = some π → Ordinary report o
  | closed (c : ClientOrderId) : o.kind = .closePosition → o.ok = true → o.clientOrderId = some c →
    c.isMarketCopy = true → Ordinary report o

theorem pinned_market {fill : SlaveFill} {c : ClientOrderId} (hc : fill.clientOrderId = some c)
    (hcm : c.isMarketCopy = true) : fill.pinned = some c := by
  unfold SlaveFill.pinned
  rw [hc, filter_some, if_pos hcm]

/-- An outcome is its job. -/
theorem applyOutcome_mappings (h : Ordinary report o) :
    (s.applyOutcome cfg gates now account report o).service.mappings =
      (jobOf report o).elim s.service.mappings fun j => j.apply account s.service.mappings := by
  cases h with
  | amend hk =>
    have hjob : jobOf report o = none := by simp [jobOf, hk]
    rw [hjob]
    unfold applyOutcome
    by_cases hok : o.ok = false
    · rw [if_pos hok, hk]
      rfl
    · rw [if_neg hok, hk]
      rfl
  | opened c π hk hok hc hcm hπ =>
    have hjob : jobOf report o = some ⟨c, false, π, o.volume.getD 0⟩ := by simp [jobOf, hk, hc, hπ]
    have hticket : (o.position.filter (· ≠ 0)).or ((dealOf report o).map ReportDeal.position |>.filter (· ≠ 0)) =
      some π := hπ
    rw [hjob]
    unfold applyOutcome
    rw [if_neg (by simp [hok]), hk]
    simp only [hticket]
    exact handleSlaveFill_market rfl (pinned_market hc hcm)
  | closed c hk hok hc hcm =>
    have hjob : jobOf report o = some ⟨c, true, (o.position.filter (· ≠ 0)).getD
        (((dealOf report o).map ReportDeal.position).getD 0), o.volume.getD 0⟩ := by simp [jobOf, hk, hc]
    rw [hjob]
    unfold applyOutcome
    rw [if_neg (by simp [hok]), hk]
    simp only [hc, isSome_some, if_true]
    refine (handleSlaveFill_close (k := o.volume.getD 0) rfl).trans ?_
    rw [pinned_market rfl hcm]
    rfl

theorem foldl_outcomes (h : ∀ o ∈ os, Ordinary report o) (s : Server) :
    (os.foldl (fun s o => s.applyOutcome cfg gates now account report o) s).service.mappings =
      Job.applyAll account (os.filterMap (jobOf report)) s.service.mappings := by
  induction os generalizing s with
  | nil => rfl
  | cons o os ih =>
    rw [foldl_cons, ih fun o' ho' => h o' (mem_cons_of_mem o ho'),
      applyOutcome_mappings (h o mem_cons_self), filterMap_cons]
    cases jobOf report o with
    | none | some j => rfl

/-- The acknowledgements of a report, as jobs. -/
theorem settle_mappings (h : ∀ o ∈ (applyAcks account s.rows report.acks).2, Ordinary report o) :
    (s.settle cfg gates now account report).service.mappings =
      Job.applyAll account ((applyAcks account s.rows report.acks).2.filterMap (jobOf report))
        s.service.mappings :=
  foldl_outcomes h _

/-- Completing one command does not touch the look-up of another. -/
theorem find_complete_ne {i j : ℕ} {ok : Bool} (hne : i ≠ j) :
    (rows.map (CommandRow.complete account j ok)).find? (CommandRow.awaits account i) =
      rows.find? (CommandRow.awaits account i) := by
  have hawaits : awaits account i ∘ complete account j ok = awaits account i := by
    funext r
    rw [Function.comp_apply, complete]
    by_cases hc : r.id = j ∧ r.isOpen = true ∧ r.accountId = account
    · have hid : r.id ≠ i := fun hid => hne (hid.symm.trans hc.1)
      rw [if_pos hc]
      simp [awaits, hid]
    · rw [if_neg hc]
  rw [find?_map, hawaits]
  cases hr : rows.find? (awaits account i) with
  | none => rfl
  | some r =>
    have hid := find?_some hr
    simp only [awaits, Bool.and_eq_true, decide_eq_true_eq] at hid
    rw [map_some, complete, if_neg fun hc => hne (hid.1.1.symm.trans hc.1)]

/-- Acknowledgements of different commands are looked up in the rows as they were. -/
theorem applyAcks_outcomes {acks : List Ack} (hn : Numbered rows) (hnd : (acks.map Ack.commandId).Nodup) :
    (applyAcks account rows acks).2 = acks.filterMap fun k =>
      (rows.find? (CommandRow.awaits account k.commandId)).map fun r => r.outcome k := by
  induction acks generalizing rows with
  | nil => rfl
  | cons k acks ih =>
    rw [map_cons, nodup_cons] at hnd
    rw [applyAcks, filterMap_cons]
    cases hr : rows.find? (awaits account k.commandId) with
    | none => exact ih hn hnd.2
    | some r =>
      have hn' : Numbered (rows.map (complete account k.commandId k.result.ok)) :=
        hn.map fun r => settles_id (settles_complete k.commandId k.result.ok r)
      simp only [map_some]
      rw [ih hn' hnd.2]
      congr 1
      refine filterMap_congr fun k' hk' => ?_
      have hne : k'.commandId ≠ k.commandId := fun hid => hnd.1 (hid ▸ mem_map_of_mem hk')
      rw [find_complete_ne hne]

/-! ### Which deal changes which mapping -/

/-- The mappings that acknowledgements change, with the deal that each names. -/
def ackChanges (cfg : ServerConfig) (gates : Org) (now : ℚ) (account : ℕ) (report : FollowerReport) :
    List AckOutcome → Server → List (ℕ × ClientOrderId)
  | [], _ => []
  | o :: os, s =>
    let s' := s.applyOutcome cfg gates now account report o
    (o.deal.toList.flatMap fun d => (changes s.service.mappings s'.service.mappings).map fun c => (d, c)) ++
      ackChanges cfg gates now account report os s'

/-- The mappings that deals change. -/
def dealChanges (cfg : ServerConfig) (gates : Org) (now : ℚ) (account : ℕ) (report : FollowerReport)
    (known acked : List ℕ) : List ReportDeal → Server → List (ℕ × ClientOrderId)
  | [], _ => []
  | d :: ds, s =>
    let s' := s.bookDeal cfg gates now account report known acked d
    (changes s.service.mappings s'.service.mappings).map (fun c => (d.ticket, c)) ++
      dealChanges cfg gates now account report known acked ds s'

/-- `_mt5_settled_deals` once the acknowledgements are added. -/
def settles (account : ℕ) (s : Server) (outcomes : List AckOutcome) : ℕ → List ℕ :=
  Function.update s.settled account (s.settled account ++ (settledBy outcomes).filter (· ∉ s.settled account))

/-- The mappings that a report changes, deal by deal. -/
def bookedChanges (cfg : ServerConfig) (gates : Org) (now : ℚ) (account : ℕ) (report : FollowerReport)
    (s : Server) :
    List (ℕ × ClientOrderId) :=
  let x := applyAcks account s.rows report.acks
  let s₁ := s.settle cfg gates now account report
  ackChanges cfg gates now account report x.2 { s with rows := x.1 } ++
    dealChanges cfg gates now account report (knownPositions account s₁.service.mappings) (ackedPositions x.2)
      (s₁.freshDeals account report) { s₁ with settled := s₁.settles account x.2 }

variable (cfg gates now) in
/-- The acknowledgements of a report change a mapping each. -/
theorem ackChanges_eq (ho : ∀ o ∈ os, Ordinary report o) (s : Server)
    (hnd : ((os.filterMap (jobOf report)).map Job.clientOrderId).Nodup)
    (h : ∀ j ∈ os.filterMap (jobOf report), ∃ m, j.Ready account rows s.service.mappings m) :
    ackChanges cfg gates now account report os s =
      os.flatMap fun o => (jobOf report o).toList.flatMap fun j => o.deal.toList.map fun d =>
        (d, j.clientOrderId) := by
  induction os generalizing s with
  | nil => rfl
  | cons o os ih =>
    have hms : (s.applyOutcome cfg gates now account report o).service.mappings =
        (jobOf report o).elim s.service.mappings fun j => j.apply account s.service.mappings :=
      applyOutcome_mappings (ho o mem_cons_self)
    have hos := fun o' ho' => ho o' (mem_cons_of_mem o ho')
    rw [ackChanges, flatMap_cons]
    cases hj : jobOf report o with
    | none =>
      rw [hj] at hms
      rw [filterMap_cons, hj] at hnd h
      have hsame : (s.applyOutcome cfg gates now account report o).service.mappings = s.service.mappings := hms
      rw [ih hos _ hnd (hsame.symm ▸ h), hsame, changes_self]
      simp
    | some j =>
      rw [hj] at hms
      rw [filterMap_cons, hj] at hnd h
      have hsame : (s.applyOutcome cfg gates now account report o).service.mappings =
        j.apply account s.service.mappings := hms
      obtain ⟨m, hm⟩ := h j mem_cons_self
      rw [map_cons, nodup_cons] at hnd
      rw [ih hos _ hnd.2 (hsame ▸ Job.ready_tail h hnd.1), hsame, hm.changes]
      cases o.deal <;> simp

/-! ### Deals that are settled -/

/-- A settled deal is dropped, and the others stay settled. -/
theorem settled_bookDeal {known acked : List ℕ} {ticket : ℕ} (h : d.ticket ∈ s.settled account)
    (hne : ticket ≠ d.ticket) (ht : ticket ∈ s.settled account) :
    ticket ∈ (s.bookDeal cfg gates now account report known acked d).settled account := by
  unfold bookDeal
  by_cases hside : d.dealType.side = none
  · rw [if_pos hside]
    exact ht
  · rw [if_neg hside, if_pos h]
    simp only [Function.update_self]
    exact mem_filter.2 ⟨ht, by simpa using hne⟩

variable (cfg gates now report) in
/-- Deals that acknowledgements have settled are dropped. -/
theorem foldl_settled (known acked : List ℕ) {ds : List ReportDeal} (hnd : (ds.map ReportDeal.ticket).Nodup)
    (s : Server) (h : ∀ d ∈ ds, d.ticket ∈ s.settled account) :
    (ds.foldl (bookDeal cfg gates now account report known acked) s).service = s.service ∧
      dealChanges cfg gates now account report known acked ds s = [] := by
  induction ds generalizing s with
  | nil => exact ⟨rfl, rfl⟩
  | cons d ds ih =>
    rw [map_cons, nodup_cons] at hnd
    have hd : (s.bookDeal cfg gates now account report known acked d).service = s.service :=
      bookDeal_settled known acked (h d mem_cons_self)
    have hrest := ih hnd.2 (s.bookDeal cfg gates now account report known acked d) fun d' hd' =>
      settled_bookDeal (h d mem_cons_self) (fun ht => hnd.1 (ht ▸ mem_map_of_mem hd'))
        (h d' (mem_cons_of_mem d hd'))
    refine ⟨hrest.1.trans hd, ?_⟩
    simp only [dealChanges, hd, changes_self, map_nil, nil_append, hrest.2]

theorem freshDeals_perm : (s.freshDeals account report).Perm
    (report.deals.filter fun d => s.watermark account < d.ticket) := perm_insertionSort _ _

theorem mem_freshDeals : d ∈ s.freshDeals account report ↔
    d ∈ report.deals ∧ s.watermark account < d.ticket := by
  rw [freshDeals_perm.mem_iff, mem_filter, decide_eq_true_eq]

theorem freshDeals_nodup (hnd : (report.deals.map ReportDeal.ticket).Nodup) :
    ((s.freshDeals account report).map ReportDeal.ticket).Nodup :=
  (freshDeals_perm.map _).nodup_iff.2 (hnd.sublist (filter_sublist.map _))

/-- The deals that an acknowledgement of the report names are settled before they are looked at. -/
theorem mem_settles
    (h : ∀ d ∈ report.deals, s.watermark account < d.ticket → d.ticket ∈ settledBy outcomes) :
    ∀ d ∈ s.freshDeals account report, d.ticket ∈ s.settles account outcomes account := by
  intro d hd
  obtain ⟨hmem, hw⟩ := mem_freshDeals.1 hd
  have hby := h d hmem hw
  simp only [settles, Function.update_self, mem_append, mem_filter, decide_eq_true_eq]
  by_cases hset : d.ticket ∈ s.settled account
  · exact .inl hset
  · exact .inr ⟨hby, hset⟩

/-- A report whose new deals are all named by its acknowledgements. -/
theorem ingest_settled (hnd : (report.deals.map ReportDeal.ticket).Nodup)
    (h : ∀ d ∈ report.deals, s.watermark account < d.ticket → d.ticket ∈ settledBy outcomes) :
    (s.ingest cfg gates now account report outcomes).service = s.service := by
  simp only [ingest, slaveDeals]
  split_ifs with hempty
  · rfl
  · exact (foldl_settled cfg gates now report _ _ (freshDeals_nodup hnd) _ (mem_settles h)).1

end Server

end Copier.Mt5
