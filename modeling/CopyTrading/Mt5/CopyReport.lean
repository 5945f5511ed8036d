import CopyTrading.Mt5.CopyFrame

/-!
# Mt5.CopyReport — a report of a follower that trades copies only

An acknowledgement whose command is still open is unsettled.  A report whose deals are those that its unsettled
acknowledgements name is a list of jobs, one for each market order: it moves the sum of the shares by what they
traded, and each of the deals changes one mapping.
-/

namespace Copier.Mt5

open List Option CommandRow

variable {r : CommandRow} {account : ℕ}

/-! ### Unsettled acknowledgements -/

/-- The acknowledgements whose command is still open, with its row. -/
def unsettledOf (account : ℕ) (rows : List CommandRow) (acks : List Ack) : List (CommandRow × Ack) :=
  acks.filterMap fun k => (rows.find? (CommandRow.awaits account k.commandId)).map fun r => (r, k)

/-- What an executed command did to the net volume of a symbol. -/
def traded (symbol : String) (x : CommandRow × Ack) : ℤ :=
  (x.1.market.map fun y => if y.1 = symbol then signed y.2 (x.2.result.volume.getD 0) else 0).getD 0

/-- The result of an executed market order: it names its deal, and a close took no more than its copy holds. -/
structure Filled (ms : Mappings) (deals : List ReportDeal) (r : CommandRow) (res : Result) : Prop where
  ok : res.ok = true
  positive : 0 < res.volume.getD 0
  deal : ∃ t ∈ deals.map ReportDeal.ticket, res.deal = some t
  position : ∀ π ∈ res.position, π ≠ 0
  enough : r.closing = true → ∀ c ∈ r.clientOrderId, ∀ m ∈ ms.find c, res.volume.getD 0 ≤ m.volume

theorem market_some (h : r.payload.kind = .openMarket) : ∃ y, r.market = some y := by
  unfold market
  cases hp : r.payload with
  | openMarket symbol side volume levels comment => exact ⟨(symbol, side), rfl⟩
  | _ =>
    rw [hp] at h
    cases h

theorem market_none (h : r.payload.kind ≠ .openMarket) : r.market = none := by
  unfold market
  cases hp : r.payload with
  | openMarket symbol side volume levels comment =>
    rw [hp] at h
    cases h rfl
  | _ => rfl

theorem Filled.beside {ms ms' : Mappings} {deals deals' : List ReportDeal} {res : Result}
    (h : Filled ms deals r res) (hb : Beside account ms ms') (hd : ∀ d ∈ deals, d ∈ deals')
    (hm : ∀ c ∈ r.clientOrderId, ∃ m, ms.find c = some m ∧ m.slaveAccountId = account) :
    Filled ms' deals' r res := by
  refine { h with deal := ?_, enough := fun hx c hc m' hm' => ?_ }
  · obtain ⟨t, ht, hdeal⟩ := h.deal
    obtain ⟨d, hd', rfl⟩ := mem_map.1 ht
    exact ⟨_, mem_map_of_mem (hd d hd'), hdeal⟩
  · obtain ⟨m, hfind, hacc⟩ := hm c hc
    obtain ⟨m₁, hm₁, -, hk⟩ := hb.kept c m hfind
    cases hm₁.symm.trans hm'
    have hle := h.enough hx c hc m hfind
    rwa [Mapping.volume, ← (hk hacc).2, ← Mapping.volume] at hle

section Unsettled

variable {account : ℕ} {rows rows' : List CommandRow} {acks : List Ack} {x : CommandRow × Ack}

theorem mem_unsettledOf (h : x ∈ unsettledOf account rows acks) :
    x.1 ∈ rows ∧ x.1.isOpen = true ∧ x.1.accountId = account ∧ x.1.id = x.2.commandId ∧ x.2 ∈ acks := by
  obtain ⟨k, hk, hx⟩ := mem_filterMap.1 h
  obtain ⟨r, hr, rfl⟩ := map_eq_some_iff.1 hx
  have hawaits := find?_some hr
  simp only [awaits, Bool.and_eq_true, decide_eq_true_eq] at hawaits
  exact ⟨mem_of_find?_eq_some hr, hawaits.1.2, hawaits.2, hawaits.1.1, hk⟩

theorem applyAcks_unsettledOf (hn : Numbered rows) (hnd : (acks.map Ack.commandId).Nodup) :
    (applyAcks account rows acks).2 = (unsettledOf account rows acks).map fun x => x.1.outcome x.2 := by
  rw [Server.applyAcks_outcomes hn hnd, unsettledOf, List.map_filterMap]
  refine List.filterMap_congr fun k _ => ?_
  rw [Option.map_map]
  rfl

/-- Different acknowledgements are of different commands. -/
theorem unsettledOf_pairwise (hnd : (acks.map Ack.commandId).Nodup) :
    (unsettledOf account rows acks).Pairwise fun x y => x.1.id ≠ y.1.id := by
  unfold unsettledOf
  rw [pairwise_filterMap]
  refine (pairwise_map.1 hnd).imp fun {k k'} hne x hx y hy => ?_
  have hid : ∀ (k : Ack) (x : CommandRow × Ack),
      (rows.find? (awaits account k.commandId)).map (fun r => (r, k)) = some x → x.1.id = k.commandId := by
    intro k x hx
    obtain ⟨r, hr, rfl⟩ := map_eq_some_iff.1 hx
    have hawaits := find?_some hr
    simp only [awaits, Bool.and_eq_true, decide_eq_true_eq] at hawaits
    exact hawaits.1.1
  rw [hid k x hx, hid k' y hy]
  exact hne

/-- What happens beside the account settles none of its commands. -/
theorem unsettledOf_apart (h : Apart account rows rows') (hn : Numbered rows) (hn' : Numbered rows')
    (hk : ∀ k ∈ acks, k.commandId < rows.length) :
      unsettledOf account rows' acks = unsettledOf account rows acks :=
  List.filterMap_congr fun k hmem => by rw [h.find_awaits hn hn' (hk k hmem)]

/-- One more acknowledgement of an open command. -/
theorem unsettledOf_append (hn : Numbered rows) {r : CommandRow} (hr : r ∈ rows) (ho : r.isOpen = true)
    (ha : r.accountId = account) (res : Result) :
    unsettledOf account rows (acks ++ [⟨r.id, res⟩]) = unsettledOf account rows acks ++ [(r, ⟨r.id, res⟩)] := by
  have hfind : rows.find? (awaits account r.id) = some r := by
    obtain ⟨i, hi⟩ := mem_iff_getElem?.1 hr
    rw [hn.find_awaits, hn i r hi, hi, filter_some, if_pos (by simp [ho, ha])]
  unfold unsettledOf
  rw [filterMap_append]
  simp [hfind]

end Unsettled

/-- The mapping of a command is of the command's account. -/
theorem Registered.mapping {s : Server} (h : Registered s) {rows : List CommandRow}
    (hs : Sound account rows s.service.mappings) (hr : r ∈ s.rows) {c : ClientOrderId}
    (hc : r.clientOrderId = some c) :
    ∃ m ∈ s.service.mappings.rows, s.service.mappings.find c = some m ∧ m.slaveAccountId = r.accountId := by
  obtain ⟨m, hm⟩ := isSome_iff_exists.1 (h.known r hr c hc)
  obtain ⟨hmem, hkey⟩ := Table.find_eq_some hm
  have hplace := hs.placed m hmem
  rw [show m.clientOrderId = c from hkey, (h.labelled r hr).account c hc] at hplace
  exact ⟨m, hmem, hm, (some.inj hplace).symm⟩

/-! ### A report of a follower that trades copies only -/

namespace Server

/-- The report names the deal of every market order it acknowledges, and brings no other. -/
structure Reported (account : ℕ) (s : Server) (report : FollowerReport) : Prop where
  numbered : Numbered s.rows
  registered : Registered s
  only : OnlyCopies account s.rows
  opposed : Opposed s.rows
  sound : Sound account s.rows s.service.mappings
  distinct : (report.acks.map Ack.commandId).Nodup
  tickets : (report.deals.map ReportDeal.ticket).Nodup
  deals : ∀ d ∈ report.deals, d.ticket ≠ 0 ∧ d.position ≠ 0
  amends : ∀ x ∈ unsettledOf account s.rows report.acks, x.1.payload.kind = .amend → x.2.result.deal = none
  filled : ∀ x ∈ unsettledOf account s.rows report.acks, x.1.payload.kind = .openMarket →
    Filled s.service.mappings report.deals x.1 x.2.result
  named : ∀ d ∈ report.deals, s.watermark account < d.ticket →
    ∃ x ∈ unsettledOf account s.rows report.acks, x.2.result.deal = some d.ticket

variable {cfg : ServerConfig} {gates : Org} {now : ℚ} {account : ℕ} {report : FollowerReport} {s : Server}
  {x : CommandRow × Ack}

namespace Reported

variable {r : CommandRow} {c : ClientOrderId}

/-- The market orders of a report, as jobs. -/
def jobs (account : ℕ) (s : Server) (report : FollowerReport) : List Job :=
  (unsettledOf account s.rows report.acks).filterMap fun x => jobOf report (x.1.outcome x.2)

section

variable (h : Reported account s report)
include h

theorem outcomes : (applyAcks account s.rows report.acks).2 =
    (unsettledOf account s.rows report.acks).map fun x => x.1.outcome x.2 :=
  applyAcks_unsettledOf h.numbered h.distinct

/-- The deal that an acknowledgement names is in the report. -/
theorem dealOf_some {o : AckOutcome} {t : ℕ}
    (ht : t ∈ report.deals.map ReportDeal.ticket) (hd : o.deal = some t) :
    ∃ d, dealOf report o = some d ∧ d.position ≠ 0 := by
  obtain ⟨d, hmem, rfl⟩ := mem_map.1 ht
  refine ⟨d, ?_, (h.deals d hmem).2⟩
  rw [dealOf, hd]
  exact lookup_of_nodup h.tickets hmem

theorem copies (hx : x ∈ unsettledOf account s.rows report.acks) :
    x.1.payload.kind = .amend ∨ x.1.payload.kind = .openMarket ∧ ∃ c, x.1.clientOrderId = some c := by
  obtain ⟨hr, -, ha, -⟩ := mem_unsettledOf hx
  exact (h.only.copies x.1 hr ha).imp_right fun hc => ⟨hc.1, isSome_iff_exists.1 hc.2⟩

end

theorem outcome_amend {k : Ack} (h : r.payload.kind = .amend) : (r.outcome k).kind = .amend := by
  simp [outcome, h]

theorem outcome_market {k : Ack} (h : r.payload.kind = .openMarket)
    (hc : r.clientOrderId = some c) :
    (r.outcome k).kind = if r.closing then .closePosition else .openMarket := by
  simp [outcome, h, hc]

section

variable (h : Reported account s report)
include h

section

variable (hx : x ∈ unsettledOf account s.rows report.acks)
include hx

section

variable (hk : x.1.payload.kind = .openMarket)
include hk

theorem ticketOf_some : ∃ π, ticketOf report (x.1.outcome x.2) = some π := by
  have hf := h.filled x hx hk
  obtain ⟨t, ht, hdeal⟩ := hf.deal
  have hpos : (x.1.outcome x.2).position = x.2.result.position := by
    have hnone : x.1.payload.position = none := by
      cases hp : x.1.payload <;> rw [hp] at hk <;> first | rfl | cases hk
    simp [outcome, hnone]
  unfold ticketOf
  rw [hpos]
  cases hπ : x.2.result.position with
  | some π =>
    have hne := hf.position π hπ
    exact ⟨π, by simp [hne]⟩
  | none =>
    -- nothing is left of the position, so the deal's is taken
    obtain ⟨d, hd, hne⟩ := h.dealOf_some ht (o := x.1.outcome x.2) hdeal
    exact ⟨d.position, by simp [hd, hne]⟩

section

variable (hc : x.1.clientOrderId = some c)
include hc

/-- The acknowledgement of a market order of a copy is a job of the copy. -/
theorem jobOf_market :
    Ordinary report (x.1.outcome x.2) ∧
      ∃ π, jobOf report (x.1.outcome x.2) = some ⟨c, x.1.closing, π, x.2.result.volume.getD 0⟩ := by
  obtain ⟨hr, -⟩ := mem_unsettledOf hx
  have hf := h.filled x hx hk
  have hcm : c.isMarketCopy = true := (h.registered.labelled x.1 hr).market hk c hc
  have hkind := outcome_market (k := x.2) hk hc
  have hc' : (x.1.outcome x.2).clientOrderId = some c := hc
  have hok : (x.1.outcome x.2).ok = true := hf.ok
  have hvol : (x.1.outcome x.2).volume.getD 0 = x.2.result.volume.getD 0 := by
    have hpos := hf.positive
    cases hv : x.2.result.volume with
    | none =>
      rw [hv] at hpos
      exact absurd hpos (lt_irrefl 0)
    | some v => simp [outcome, hv]
  cases hclosing : x.1.closing with
  | true =>
    rw [hclosing, if_pos rfl] at hkind
    exact ⟨.closed c hkind hok hc' hcm, _, by simp only [jobOf, hkind, hc', hvol]; rfl⟩
  | false =>
    rw [hclosing, if_neg (by simp)] at hkind
    obtain ⟨π, hπ⟩ := h.ticketOf_some hx hk
    exact ⟨.opened c π hkind hok hc' hcm hπ, π, by simp only [jobOf, hkind, hc', hvol, hπ, map_some]⟩

/-- A market order of a copy is on the side of the copy's open, a close on the other. -/
theorem market_eq :
    ∃ y, openPayload s.rows c = some y ∧
      x.1.market = some (y.1, if x.1.closing then Side.opposite y.2 else y.2) := by
  obtain ⟨hr, -, ha, -⟩ := mem_unsettledOf hx
  cases hclosing : x.1.closing with
  | true =>
    obtain ⟨c', y, hc', hopen, hy⟩ := h.opposed x.1 hr hclosing
    cases hc.symm.trans hc'
    exact ⟨y, hopen, hy⟩
  | false =>
    obtain ⟨y, hy⟩ := market_some hk
    exact ⟨y, (h.only.sided x.1 hr ha hclosing c hc).trans hy, hy⟩

/-- **The job of an acknowledgement moves the share of its copy by what was traded.** -/
theorem job :
    ∃ j m, jobOf report (x.1.outcome x.2) = some j ∧ j.clientOrderId = c ∧
      j.Ready account s.rows s.service.mappings m ∧ ∀ symbol, j.share s.rows symbol = traded symbol x := by
  obtain ⟨hr, -, ha, -⟩ := mem_unsettledOf hx
  have hf := h.filled x hx hk
  obtain ⟨-, π, hjob⟩ := h.jobOf_market hx hk hc
  obtain ⟨y, hopen, hy⟩ := h.market_eq hx hk hc
  obtain ⟨m, hmem, hm, hacc⟩ := h.registered.mapping h.sound hr hc
  rw [ha] at hacc
  refine ⟨_, m, hjob, rfl, ⟨hm, hacc, h.sound.idle m hmem hacc, fun hclosing => ?_, ?_, hf.positive⟩,
    fun symbol => ?_⟩
  · have hle := hf.enough hclosing c hc m hm
    refine ⟨by_contra fun hact => ?_, hle⟩
    have hpos := hf.positive
    rw [h.sound.idle m hmem hacc hact] at hle
    exact absurd hle (by omega)
  · rw [hopen]
    rfl
  · unfold Job.share traded
    rw [hopen, hy]
    rfl

end

end

end

theorem ordinary :
    ∀ o ∈ (applyAcks account s.rows report.acks).2, Ordinary report o := by
  intro o ho
  rw [h.outcomes] at ho
  obtain ⟨x, hx, rfl⟩ := mem_map.1 ho
  rcases h.copies hx with hk | ⟨hk, c, hc⟩
  · exact .amend (outcome_amend hk)
  · exact (h.jobOf_market hx hk hc).1

end

theorem jobOf_amend (hk : x.1.payload.kind = .amend) : jobOf report (x.1.outcome x.2) = none := by
  simp [jobOf, outcome_amend hk]

section

variable (h : Reported account s report)
include h

theorem ready :
    ∀ j ∈ jobs account s report, ∃ m, j.Ready account s.rows s.service.mappings m := by
  intro j hj
  obtain ⟨x, hx, hjob⟩ := mem_filterMap.1 hj
  rcases h.copies hx with hk | ⟨hk, c, hc⟩
  · rw [jobOf_amend hk] at hjob
    cases hjob
  · obtain ⟨j', m, hjob', -, hready, -⟩ := h.job hx hk hc
    cases hjob'.symm.trans hjob
    exact ⟨m, hready⟩

/-- The jobs are of different copies: a copy has one command in flight. -/
theorem jobs_nodup : ((jobs account s report).map Job.clientOrderId).Nodup := by
  refine pairwise_map.2 (pairwise_filterMap.2 ?_)
  refine (unsettledOf_pairwise h.distinct).imp_of_mem fun {x y} hx hy hne j hj j' hj' heq => hne ?_
  have hcopy : ∀ x ∈ unsettledOf account s.rows report.acks, ∀ j, jobOf report (x.1.outcome x.2) = some j →
      x.1.clientOrderId = some j.clientOrderId := by
    intro x hx j hj
    rcases h.copies hx with hk | ⟨hk, c, hc⟩
    · rw [jobOf_amend hk] at hj
      cases hj
    · obtain ⟨j', -, hj', hcj, -⟩ := h.job hx hk hc
      cases hj'.symm.trans hj
      rw [hc, hcj]
  have hxc := hcopy x hx j hj
  have hyc := hcopy y hy j' hj'
  obtain ⟨hxr, hxo, hxa, -⟩ := mem_unsettledOf hx
  obtain ⟨hyr, hyo, hya, -⟩ := mem_unsettledOf hy
  refine h.only.single y.1 hyr x.1 hxr (inFlight_iff.2 ⟨hya, hyo, by rw [hyc]; rfl⟩)
    (inFlight_iff.2 ⟨hxa, hxo, by rw [hxc]; rfl⟩) ?_
  rw [hxc, hyc, heq]

/-- The deals of the report are settled by its acknowledgements. -/
theorem settled : ∀ d ∈ report.deals,
    (s.settle cfg gates now account report).watermark account < d.ticket →
      d.ticket ∈ settledBy (applyAcks account s.rows report.acks).2 := by
  intro d hd hw
  rw [settle_watermark] at hw
  obtain ⟨x, hx, hdeal⟩ := h.named d hd hw
  rw [h.outcomes]
  refine mem_filterMap.2 ⟨_, mem_map_of_mem hx, ?_⟩
  rcases h.copies hx with hk | ⟨hk, c, hc⟩
  · rw [h.amends x hx hk] at hdeal
    cases hdeal
  · have hkind := outcome_market (k := x.2) hk hc
    have hok : (x.1.outcome x.2).ok = true := (h.filled x hx hk).ok
    have hc' : (x.1.outcome x.2).clientOrderId = some c := hc
    have hdeal' : (x.1.outcome x.2).deal = some d.ticket := hdeal
    have hmarket : (x.1.outcome x.2).kind = .openMarket ∨ (x.1.outcome x.2).kind = .closePosition := by
      rw [hkind]
      cases x.1.closing
      · exact .inl rfl
      · exact .inr rfl
    rw [if_pos ⟨hok, by rw [hc']; rfl, hmarket⟩, hdeal', filter_some, if_pos]
    simpa using (h.deals d hd).1

/-- **What a report writes**: its jobs. -/
theorem booked_mappings :
    (s.booked cfg gates now account report).service.mappings =
      Job.applyAll account (jobs account s report) s.service.mappings := by
  unfold booked
  rw [ingest_settled h.tickets h.settled, settle_mappings h.ordinary, h.outcomes, filterMap_map]
  rfl

theorem sound_booked :
    Sound account s.rows (s.booked cfg gates now account report).service.mappings := by
  rw [h.booked_mappings]
  exact h.sound.applyAll h.jobs_nodup h.ready

/-- **A report moves the sum of the shares by what its acknowledgements traded.** -/
theorem sum_booked (symbol : String) :
    (s.booked cfg gates now account report).service.mappings.sum (share account s.rows symbol) =
      s.service.mappings.sum (share account s.rows symbol) +
        ((unsettledOf account s.rows report.acks).map (traded symbol)).sum := by
  rw [h.booked_mappings, Job.sum_applyAll h.jobs_nodup h.ready, jobs, sum_map_filterMap]
  congr 2
  refine map_congr_left fun x hx => ?_
  rcases h.copies hx with hk | ⟨hk, c, hc⟩
  · have hmarket : x.1.market = none := market_none (by rw [hk]; exact nofun)
    simp [jobOf_amend hk, traded, hmarket]
  · obtain ⟨j, -, hj, -, -, hshare⟩ := h.job hx hk hc
    rw [hj]
    exact hshare symbol

/-- **Each deal that the acknowledgements name changes one mapping, and no other deal changes any.** -/
theorem changes :
    (s.bookedChanges cfg gates now account report).map Prod.fst =
      (unsettledOf account s.rows report.acks).filterMap fun x => x.2.result.deal := by
  have hdeals := (foldl_settled cfg gates now report
    (knownPositions account (s.settle cfg gates now account report).service.mappings)
    (ackedPositions (applyAcks account s.rows report.acks).2) (freshDeals_nodup h.tickets)
    { s.settle cfg gates now account report with
      settled := (s.settle cfg gates now account report).settles account (applyAcks account s.rows report.acks).2 }
    (mem_settles h.settled)).2
  have hjobs : (applyAcks account s.rows report.acks).2.filterMap (jobOf report) = jobs account s report := by
    rw [h.outcomes, filterMap_map]
    rfl
  have hacks := ackChanges_eq cfg gates now h.ordinary { s with rows := (applyAcks account s.rows report.acks).1 }
    (hjobs ▸ h.jobs_nodup) (hjobs ▸ h.ready)
  simp only [bookedChanges]
  rw [hdeals, append_nil, hacks, h.outcomes, flatMap_map, map_flatMap, filterMap_eq_flatMap_toList]
  refine flatMap_congr fun x hx => ?_
  rcases h.copies hx with hk | ⟨hk, c, hc⟩
  · rw [jobOf_amend hk, h.amends x hx hk]
    rfl
  · obtain ⟨j, -, hj, -⟩ := h.job hx hk hc
    have hdeal : (x.1.outcome x.2).deal = x.2.result.deal := rfl
    rw [hj, hdeal]
    cases x.2.result.deal <;> rfl

end

end Reported

end Server

end Copier.Mt5
