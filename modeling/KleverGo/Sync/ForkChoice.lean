import KleverGo.Sync.ForkDetector

/-!
# Fork choice

`CheckFork` ranges over a map and keeps the best header it has seen.  What it reports depends on the
headers that are known and on nothing else:

* `scanHeaders_spec` — the inner loop finds the header of the node and the best of the others;
* `checkForkAt_fold` — the outer loop finds the smallest nonce with a fork;
* `fork_choice_order_independent` — **a fork is reported at the smallest nonce at which some received
  header is better than the processed one, with the best header there, whatever the order in which
  the headers arrived and the map is ranged over**.
-/

namespace KleverGo.Sync

open List

namespace HeaderInfo

/-- Lower in the order of two headers of one epoch. -/
def Lower (a b : HeaderInfo) : Prop := a.slot < b.slot ∨ a.slot = b.slot ∧ a.hash < b.hash

/-- The order of fork choice: the higher epoch, then the smaller slot, then the smaller hash. -/
def Better (a b : HeaderInfo) : Prop := b.epoch < a.epoch ∨ a.epoch = b.epoch ∧ a.Lower b

/-- What `AddHeader` makes sure of: a header is kept under its nonce, and there are not more blocks
than slots. -/
def Admitted (info : HeaderInfo) (nonce : UInt64) : Prop :=
  info.nonce = nonce ∧ nonce ≤ info.slot ∧ info.slot < maxUint64

end HeaderInfo

namespace ForkDetector

variable {bfd : ForkDetector}

/-- At a nonce there is at most one processed header, every other header was received in time, and
the hash identifies a header. -/
structure Plain (bfd : ForkDetector) (nonce : UInt64) : Prop where
  admitted : ∀ info ∈ bfd.headersAt nonce, info.Admitted nonce
  state : ∀ info ∈ bfd.headersAt nonce, info.state = .BHProcessed ∨ info.state = .BHReceived
  processed : ∀ a ∈ bfd.headersAt nonce, ∀ b ∈ bfd.headersAt nonce,
    a.state = .BHProcessed → b.state = .BHProcessed → a = b
  hash : ∀ a ∈ bfd.headersAt nonce, ∀ b ∈ bfd.headersAt nonce,
    a.hash = b.hash → a.epoch = b.epoch ∧ a.slot = b.slot

/-- A received header at a nonce is better than the processed one.  The hash decides only as long as
no header with a higher nonce was received. -/
def ForkAt (bfd : ForkDetector) (nonce : UInt64) : Prop :=
  bfd.finalCheckpoint.nonce < nonce ∧
    ∃ self ∈ bfd.headersAt nonce, self.state = .BHProcessed ∧
    ∃ other ∈ bfd.headersAt nonce, other.state = .BHReceived ∧ other.Better self ∧
      (other.epoch = self.epoch → other.slot = self.slot → bfd.highestNonceReceived ≤ nonce)

/-- The best of the received headers at a nonce. -/
def BestAt (bfd : ForkDetector) (nonce : UInt64) (best : HeaderInfo) : Prop :=
  best ∈ bfd.headersAt nonce ∧ best.state = .BHReceived ∧
    ∀ other ∈ bfd.headersAt nonce, other.state = .BHReceived → ¬ other.Better best

/-! ## The largest epoch -/

variable {infos : List HeaderInfo}

theorem le_getMaxEpoch : ∀ info ∈ infos, info.epoch ≤ getMaxEpochFromHdrsInfo infos := by
  unfold getMaxEpochFromHdrsInfo
  induction infos using reverseRecOn with
  | nil => nofun
  | append_singleton infos last ih =>
    intro info hinfo
    rw [foldl_append, foldl_cons, foldl_nil]
    rcases mem_append.1 hinfo with hinfo | hinfo
    · have hle := ih info hinfo
      grind
    · rw [mem_singleton.1 hinfo]
      grind

theorem getMaxEpoch_mem (infos : List HeaderInfo) :
    getMaxEpochFromHdrsInfo infos = 0 ∨
      ∃ info ∈ infos, info.epoch = getMaxEpochFromHdrsInfo infos := by
  unfold getMaxEpochFromHdrsInfo
  induction infos using reverseRecOn with
  | nil => exact .inl rfl
  | append_singleton infos last ih =>
    rw [foldl_append, foldl_cons, foldl_nil]
    split
    · exact .inr ⟨last, by simp, rfl⟩
    · rcases ih with ih | ⟨info, hinfo, heq⟩
      · exact .inl ih
      · exact .inr ⟨info, mem_append_left _ hinfo, heq⟩

/-! ## The inner loop -/

/-- A received header of the largest epoch. -/
def Candidate (maxEpoch : UInt32) (info : HeaderInfo) : Prop :=
  info.state = .BHReceived ∧ ¬ info.epoch < maxEpoch

/-- The lowest of the candidates seen so far. -/
def LowestOf (maxEpoch : UInt32) (seen : List HeaderInfo) (fork : ForkHeader) : Prop :=
  (fork = {} ∧ ∀ info ∈ seen, ¬ Candidate maxEpoch info) ∨
    ∃ best ∈ seen, Candidate maxEpoch best ∧ fork = ⟨some best.hash, best.slot, best.epoch⟩ ∧
      ∀ info ∈ seen, Candidate maxEpoch info → ¬ info.Lower best

variable {maxEpoch : UInt32} {seen : List HeaderInfo} {info : HeaderInfo}

theorem computeForkInfo_lowest {fork : ForkHeader} (h : LowestOf maxEpoch seen fork)
    (hstate : info.state = .BHReceived) (hslot : info.slot < maxUint64) :
    LowestOf maxEpoch (seen ++ [info]) (bfd.computeForkInfo maxEpoch info fork) := by
  have hcompute : bfd.computeForkInfo maxEpoch info fork =
      if info.epoch < maxEpoch then fork
      else if info.slot < fork.slot ∨ (info.slot = fork.slot ∧ info.hash < fork.hash.getD []) then
        ⟨some info.hash, info.slot, info.epoch⟩
      else fork := by
    unfold computeForkInfo
    simp [hstate]
  rw [hcompute]
  unfold LowestOf Candidate HeaderInfo.Lower at *
  simp only [mem_append, mem_singleton]
  rcases h with ⟨rfl, hnone⟩ | ⟨best, hbest, hcandidate, rfl, hlowest⟩
  · by_cases hepoch : info.epoch < maxEpoch
    · rw [if_pos hepoch]
      refine .inl ⟨rfl, ?_⟩
      rintro other (hother | rfl)
      · exact hnone other hother
      · exact fun h => h.2 hepoch
    · rw [if_neg hepoch, if_pos (.inl hslot)]
      refine .inr ⟨info, .inr rfl, ⟨hstate, hepoch⟩, rfl, ?_⟩
      rintro other (hother | rfl) hcandidate
      · exact absurd hcandidate (hnone other hother)
      · grind
  · by_cases hepoch : info.epoch < maxEpoch
    · rw [if_pos hepoch]
      refine .inr ⟨best, .inl hbest, hcandidate, rfl, ?_⟩
      rintro other (hother | rfl) hother'
      · exact hlowest other hother hother'
      · exact absurd hepoch hother'.2
    · rw [if_neg hepoch]
      dsimp only [Option.getD_some]
      by_cases hlower : info.slot < best.slot ∨ info.slot = best.slot ∧ info.hash < best.hash
      · rw [if_pos hlower]
        refine .inr ⟨info, .inr rfl, ⟨hstate, hepoch⟩, rfl, ?_⟩
        rintro other (hother | rfl) hcandidate'
        · have hle := hlowest other hother hcandidate'
          grind
        · grind
      · rw [if_neg hlower]
        refine .inr ⟨best, .inl hbest, hcandidate, rfl, ?_⟩
        rintro other (hother | rfl) hcandidate'
        · exact hlowest other hother hcandidate'
        · exact hlower

theorem LowestOf.skip {fork : ForkHeader} (h : LowestOf maxEpoch seen fork)
    (hstate : info.state = .BHProcessed) :
    LowestOf maxEpoch (seen ++ [info]) fork := by
  have hskip : ¬ Candidate maxEpoch info := by
    rintro ⟨hreceived, -⟩
    rw [hstate] at hreceived
    cases hreceived
  have hmem : ∀ other, Candidate maxEpoch other → other ∈ seen ++ [info] → other ∈ seen := by
    intro other hcandidate hother
    rcases mem_append.1 hother with hother | hother
    · exact hother
    · rw [mem_singleton.1 hother] at hcandidate
      exact absurd hcandidate hskip
  rcases h with ⟨hfork, hnone⟩ | ⟨best, hbest, hcandidate, hfork, hlowest⟩
  · exact .inl ⟨hfork, fun other hother hcandidate =>
      hnone other (hmem other hcandidate hother) hcandidate⟩
  · exact .inr ⟨best, mem_append_left _ hbest, hcandidate, hfork, fun other hother hcandidate' =>
      hlowest other (hmem other hcandidate' hother) hcandidate'⟩

/-- What the inner loop finds: the header of the node, if there is one, and the lowest of the
received headers of the largest epoch. -/
theorem scanHeaders_spec
    (hstate : ∀ info ∈ infos, info.state = .BHProcessed ∨ info.state = .BHReceived)
    (hslot : ∀ info ∈ infos, info.slot < maxUint64) :
    LowestOf (getMaxEpochFromHdrsInfo infos) infos (bfd.scanHeaders infos).2 ∧
      match (bfd.scanHeaders infos).1 with
      | none => ∀ info ∈ infos, info.state ≠ .BHProcessed
      | some self => self ∈ infos ∧ self.state = .BHProcessed := by
  unfold scanHeaders
  dsimp only
  generalize getMaxEpochFromHdrsInfo infos = maxEpoch
  induction infos using reverseRecOn with
  | nil => exact ⟨.inl ⟨rfl, nofun⟩, nofun⟩
  | append_singleton infos last ih =>
    obtain ⟨hlowest, hself⟩ := ih (fun info h => hstate info (mem_append_left _ h))
      fun info h => hslot info (mem_append_left _ h)
    have hlast : last ∈ infos ++ [last] := mem_append_right _ mem_cons_self
    rw [foldl_append, foldl_cons, foldl_nil]
    rcases hstate last hlast with hprocessed | hreceived
    · rw [if_pos hprocessed]
      exact ⟨hlowest.skip hprocessed, hlast, hprocessed⟩
    have hne : last.state ≠ .BHProcessed := by rw [hreceived]; decide
    rw [if_neg hne]
    refine ⟨computeForkInfo_lowest hlowest hreceived (hslot last hlast), ?_⟩
    split at hself
    · next hnone =>
      rw [hnone]
      intro info hinfo
      rcases mem_append.1 hinfo with hinfo | hinfo
      · exact hself info hinfo
      · rwa [mem_singleton.1 hinfo]
    · next self hsome =>
      rw [hsome]
      exact ⟨mem_append_left _ hself.1, hself.2⟩

/-! ## One nonce -/

/-- The report for one nonce, if there is a fork. -/
def reportAt (bfd : ForkDetector) (nonce : UInt64) (infos : List HeaderInfo) : Option ForkInfo :=
  if infos.length = 1 ∨ nonce ≤ bfd.finalCheckpoint.nonce then none
  else match bfd.scanHeaders infos with
    | (none, _) => none
    | (some self, fork) =>
      if bfd.shouldSignalFork self fork then some ⟨true, nonce, fork.slot, fork.hash⟩ else none

theorem checkForkAt_eq (info : ForkInfo) (nonce : UInt64) (infos : List HeaderInfo) :
    bfd.checkForkAt info (nonce, infos) =
      match bfd.reportAt nonce infos with
      | none => info
      | some report => if report.nonce < info.nonce then report else
        { info with isDetected := true } := by
  unfold checkForkAt reportAt
  dsimp only
  by_cases hone : infos.length = 1
  · rw [if_pos hone, if_pos (.inl hone)]
  by_cases hfinal : nonce ≤ bfd.finalCheckpoint.nonce
  · rw [if_neg hone, if_pos hfinal, if_pos (.inr hfinal)]
  rw [if_neg hone, if_neg hfinal, if_neg (not_or.2 ⟨hone, hfinal⟩)]
  rcases bfd.scanHeaders infos with ⟨_ | self, fork⟩
  · rfl
  · dsimp only
    cases bfd.shouldSignalFork self fork <;> rfl

/-- Some received header at the nonce is better than the processed one `self`. -/
def BeatenAt (bfd : ForkDetector) (nonce : UInt64) (self : HeaderInfo) : Prop :=
  ∃ other ∈ bfd.headersAt nonce, other.state = .BHReceived ∧ other.Better self ∧
    (other.epoch = self.epoch → other.slot = self.slot → bfd.highestNonceReceived ≤ nonce)

section OneNonce

variable {nonce : UInt64} {self : HeaderInfo} {fork : ForkHeader}

/-- No received header has the largest epoch: the node has the best one. -/
theorem not_beaten_of_no_candidate (h : bfd.Plain nonce) (hself : self ∈ bfd.headersAt nonce)
    (hprocessed : self.state = .BHProcessed) (hnone : ∀ info ∈ bfd.headersAt nonce,
      ¬ Candidate (getMaxEpochFromHdrsInfo (bfd.headersAt nonce)) info) :
    ¬ bfd.BeatenAt nonce self := by
  rintro ⟨other, hother, hreceived, hbetter, -⟩
  have hlower : other.epoch < getMaxEpochFromHdrsInfo (bfd.headersAt nonce) := by
    by_contra hmax
    exact hnone other hother ⟨hreceived, hmax⟩
  -- so the largest epoch is that of the processed header, which cannot be lower
  rcases getMaxEpoch_mem (bfd.headersAt nonce) with hzero | ⟨top, htop, hepoch⟩
  · rw [hzero] at hlower
    exact absurd hlower (UInt32.not_lt_zero)
  rcases h.state top htop with hstate | hstate
  · rw [h.processed top htop self hself hstate hprocessed] at hepoch
    unfold HeaderInfo.Better at hbetter
    grind
  · exact hnone top htop ⟨hstate, by grind⟩

variable {best : HeaderInfo}

theorem bestAt_of_lowest (hbest : best ∈ bfd.headersAt nonce)
    (hcandidate : Candidate (getMaxEpochFromHdrsInfo (bfd.headersAt nonce)) best)
    (hlowest : ∀ info ∈ bfd.headersAt nonce,
      Candidate (getMaxEpochFromHdrsInfo (bfd.headersAt nonce)) info → ¬ info.Lower best) :
    bfd.BestAt nonce best ∧ ∀ info ∈ bfd.headersAt nonce, info.epoch ≤ best.epoch := by
  have hepoch : ∀ info ∈ bfd.headersAt nonce, info.epoch ≤ best.epoch := by
    intro info hinfo
    have hle := le_getMaxEpoch info hinfo
    have hmax := hcandidate.2
    grind
  refine ⟨⟨hbest, hcandidate.1, fun other hother hreceived hbetter => ?_⟩, hepoch⟩
  rcases hbetter with hhigher | ⟨heq, hlower⟩
  · have hle := hepoch other hother
    grind
  · refine hlowest other hother ⟨hreceived, ?_⟩ hlower
    rw [heq]
    exact hcandidate.2

theorem shouldSignalFork_none (hslot : self.slot < maxUint64) :
    bfd.shouldSignalFork self {} = false := by
  have hne : ¬ self.slot = maxUint64 := by grind
  have hle : ¬ maxUint64 < self.slot := by grind
  have hmax : ¬ maxUint64 = 0 := by decide
  simp [shouldSignalFork, hne, hle, hmax]

/-- The best of the received headers was found: a fork is signalled if it is better. -/
theorem shouldSignalFork_best (h : bfd.Plain nonce) (hself : self ∈ bfd.headersAt nonce)
    (hbest : best ∈ bfd.headersAt nonce) (hslot : best.slot ≠ 0)
    (hepoch : self.epoch ≤ best.epoch) :
    bfd.shouldSignalFork self ⟨some best.hash, best.slot, best.epoch⟩ = true ↔
      best.Better self ∧
        (best.epoch = self.epoch → best.slot = self.slot → bfd.highestNonceReceived ≤ nonce) := by
  obtain ⟨hnonce, -, -⟩ := h.admitted self hself
  have hhash := h.hash self hself best hbest
  unfold shouldSignalFork HeaderInfo.Better HeaderInfo.Lower
  simp only [Option.getD_some]
  by_cases hsame : self.hash = best.hash
  · obtain ⟨heq, hslots⟩ := hhash hsame
    rw [if_pos hsame]
    grind
  · rw [if_neg hsame, hnonce]
    grind

theorem shouldSignalFork_iff (h : bfd.Plain nonce) (hfinal : bfd.finalCheckpoint.nonce < nonce)
    (hself : self ∈ bfd.headersAt nonce) (hprocessed : self.state = .BHProcessed)
    (hlowest : LowestOf (getMaxEpochFromHdrsInfo (bfd.headersAt nonce)) (bfd.headersAt nonce) fork) :
    (bfd.shouldSignalFork self fork = true ↔ bfd.BeatenAt nonce self) ∧
      (bfd.shouldSignalFork self fork = true →
        ∃ best, bfd.BestAt nonce best ∧ fork = ⟨some best.hash, best.slot, best.epoch⟩) := by
  rcases hlowest with ⟨rfl, hnone⟩ | ⟨best, hbest, hcandidate, rfl, hlowest⟩
  · rw [shouldSignalFork_none (h.admitted self hself).2.2]
    exact ⟨⟨nofun, fun hb => absurd hb (not_beaten_of_no_candidate h hself hprocessed hnone)⟩, nofun⟩
  obtain ⟨hbestAt, hepoch⟩ := bestAt_of_lowest hbest hcandidate hlowest
  have hslot : best.slot ≠ 0 := by
    have hle := (h.admitted best hbest).2.1
    grind
  rw [shouldSignalFork_best h hself hbest hslot (hepoch self hself)]
  refine ⟨⟨fun hbetter => ⟨best, hbest, hcandidate.1, hbetter⟩, ?_⟩, fun _ => ⟨best, hbestAt, rfl⟩⟩
  rintro ⟨other, hother, hreceived, hbetter, hguard⟩
  have hworse := hbestAt.2.2 other hother hreceived
  have hle := hepoch other hother
  unfold HeaderInfo.Better HeaderInfo.Lower at *
  grind

theorem reportAt_spec (h : bfd.finalCheckpoint.nonce < nonce → bfd.Plain nonce) :
    match bfd.reportAt nonce (bfd.headersAt nonce) with
    | none => ¬ bfd.ForkAt nonce
    | some report => bfd.ForkAt nonce ∧
        ∃ best, bfd.BestAt nonce best ∧ report = ⟨true, nonce, best.slot, some best.hash⟩ := by
  unfold reportAt
  by_cases hone : (bfd.headersAt nonce).length = 1
  · rw [if_pos (.inl hone)]
    rintro ⟨-, self, hself, hprocessed, other, hother, hreceived, -⟩
    obtain ⟨only, honly⟩ := length_eq_one_iff.1 hone
    rw [honly, mem_singleton] at hself hother
    rw [hself, ← hother, hreceived] at hprocessed
    cases hprocessed
  by_cases hle : nonce ≤ bfd.finalCheckpoint.nonce
  · rw [if_pos (.inr hle)]
    rintro ⟨hfinal, -⟩
    grind
  have hfinal : bfd.finalCheckpoint.nonce < nonce := by grind
  have hplain := h hfinal
  obtain ⟨hlowest, hscan⟩ := @scanHeaders_spec bfd _ hplain.state
    fun info hinfo => (hplain.admitted info hinfo).2.2
  rw [if_neg (not_or.2 ⟨hone, hle⟩)]
  rcases hresult : bfd.scanHeaders (bfd.headersAt nonce) with ⟨_ | self, fork⟩ <;>
    rw [hresult] at hlowest hscan <;> dsimp only at hlowest hscan ⊢
  · rintro ⟨-, self, hself, hprocessed, -⟩
    exact hscan self hself hprocessed
  obtain ⟨hsignal, hbest⟩ := shouldSignalFork_iff hplain hfinal hscan.1 hscan.2 hlowest
  by_cases hfork : bfd.shouldSignalFork self fork = true
  · obtain ⟨best, hbestAt, rfl⟩ := hbest hfork
    rw [if_pos hfork]
    exact ⟨⟨hfinal, self, hscan.1, hscan.2, hsignal.1 hfork⟩, best, hbestAt, rfl⟩
  · rw [if_neg hfork]
    rintro ⟨-, self', hself', hprocessed', hbeaten⟩
    rw [hplain.processed self' hself' self hscan.1 hprocessed' hscan.2] at hbeaten
    exact hfork (hsignal.2 hbeaten)

end OneNonce

/-! ## All nonces -/

/-- The report with the smallest nonce among the nonces seen so far. -/
def SmallestOf (bfd : ForkDetector) (seen : List (UInt64 × List HeaderInfo)) (info : ForkInfo) :
    Prop :=
  (info = {} ∧ ∀ entry ∈ seen, bfd.reportAt entry.1 entry.2 = none) ∨
    ∃ entry ∈ seen, bfd.reportAt entry.1 entry.2 = some info ∧
      ∀ entry' ∈ seen, (bfd.reportAt entry'.1 entry'.2).isSome → info.nonce ≤ entry'.1

theorem reportAt_nonce {nonce : UInt64} {report : ForkInfo}
    (h : bfd.reportAt nonce infos = some report) :
    report.nonce = nonce ∧ report.isDetected = true := by
  unfold reportAt at h
  split at h
  · cases h
  split at h
  · cases h
  · split at h
    · cases h
      exact ⟨rfl, rfl⟩
    · cases h

theorem checkForkAt_smallest {seen : List (UInt64 × List HeaderInfo)} {info : ForkInfo}
    (h : bfd.SmallestOf seen info) {entry : UInt64 × List HeaderInfo}
    (hnonce : (bfd.reportAt entry.1 entry.2).isSome → entry.1 < maxUint64) :
    bfd.SmallestOf (seen ++ [entry]) (bfd.checkForkAt info entry) := by
  obtain ⟨nonce, infos⟩ := entry
  rw [checkForkAt_eq]
  unfold SmallestOf at *
  simp only [mem_append, mem_singleton]
  cases hreport : bfd.reportAt nonce infos with
  | none =>
    rcases h with ⟨rfl, hnone⟩ | ⟨first, hfirst, hsome, hsmallest⟩
    · refine .inl ⟨rfl, ?_⟩
      rintro other (hother | rfl)
      · exact hnone other hother
      · exact hreport
    refine .inr ⟨first, .inl hfirst, hsome, ?_⟩
    rintro other (hother | rfl) hisSome
    · exact hsmallest other hother hisSome
    · rw [hreport] at hisSome
      cases hisSome
  | some report =>
    obtain ⟨rfl, -⟩ := reportAt_nonce hreport
    have hbound := hnonce (by rw [hreport]; rfl)
    dsimp only at hbound ⊢
    rcases h with ⟨rfl, hnone⟩ | ⟨first, hfirst, hsome, hsmallest⟩
    · rw [if_pos hbound]
      refine .inr ⟨(report.nonce, infos), .inr rfl, hreport, ?_⟩
      rintro other (hother | rfl) hisSome
      · rw [hnone other hother] at hisSome
        cases hisSome
      · grind
    · by_cases hlt : report.nonce < info.nonce
      · rw [if_pos hlt]
        refine .inr ⟨(report.nonce, infos), .inr rfl, hreport, ?_⟩
        rintro other (hother | rfl) hisSome
        · have hle := hsmallest other hother hisSome
          grind
        · grind
      · have hdetected : { info with isDetected := true } = info := by
          rw [← (reportAt_nonce hsome).2]
        rw [if_neg hlt, hdetected]
        refine .inr ⟨first, .inl hfirst, hsome, ?_⟩
        rintro other (hother | rfl) hisSome
        · exact hsmallest other hother hisSome
        · grind

variable {order : List (UInt64 × List HeaderInfo)}

theorem checkForkAt_fold
    (hnonce : ∀ entry ∈ order, (bfd.reportAt entry.1 entry.2).isSome → entry.1 < maxUint64) :
    bfd.SmallestOf order (order.foldl bfd.checkForkAt {}) := by
  induction order using reverseRecOn with
  | nil => exact .inl ⟨rfl, nofun⟩
  | append_singleton order last ih =>
    rw [foldl_append, foldl_cons, foldl_nil]
    exact checkForkAt_smallest (ih fun entry h => hnonce entry (mem_append_left _ h))
      (hnonce last (mem_append_right _ mem_cons_self))

/-- Asking whether the consensus is stuck changes nothing but the time of the last synchronisation. -/
theorem isConsensusStuck_eq (moment : Moment) :
    ∃ tmpStuck, (bfd.isConsensusStuck moment).2 = { bfd with tmpStuck } := by
  have hsyncing : ∃ tmpStuck, (bfd.isSyncing moment).2 = { bfd with tmpStuck } := by
    unfold isSyncing
    dsimp only
    split
    · exact ⟨moment.now, rfl⟩
    · exact ⟨bfd.tmpStuck, rfl⟩
  unfold isConsensusStuck
  split
  · exact ⟨bfd.tmpStuck, rfl⟩
  · rcases hresult : bfd.isSyncing moment with ⟨syncing, bfd'⟩
    rw [hresult] at hsyncing
    dsimp only at hsyncing ⊢
    split <;> exact hsyncing

variable {moment : Moment}

/-- Without a forced rollback the report is that of the outer loop. -/
theorem checkFork_eq (hstuck : (bfd.isConsensusStuck moment).1 = false)
    (hrollBack : bfd.rollBackNonce = maxUint64) :
    (bfd.checkFork moment order).1 = order.foldl bfd.checkForkAt {} := by
  obtain ⟨tmpStuck, heq⟩ := bfd.isConsensusStuck_eq moment
  have hpair : bfd.isConsensusStuck moment = (false, { bfd with tmpStuck }) := Prod.ext hstuck heq
  unfold checkFork
  rw [hpair]
  dsimp only
  rw [if_neg (by decide), hrollBack, if_neg (by decide)]
  rfl

/-- What `CheckFork` reports: nothing, or the smallest nonce with a fork and the best header there. -/
structure Reports (bfd : ForkDetector) (info : ForkInfo) : Prop where
  detected : info.isDetected = true ↔ ∃ nonce, bfd.ForkAt nonce
  nothing : info.isDetected = false → info = {}
  smallest : info.isDetected = true → bfd.ForkAt info.nonce ∧
    (∀ nonce, bfd.ForkAt nonce → info.nonce ≤ nonce) ∧
    ∃ best, bfd.BestAt info.nonce best ∧ info.slot = best.slot ∧ info.hash = some best.hash

theorem checkFork_reports (horder : Finmap.Enumerates order bfd.headers)
    (hstuck : (bfd.isConsensusStuck moment).1 = false) (hrollBack : bfd.rollBackNonce = maxUint64)
    (hplain : ∀ nonce, bfd.finalCheckpoint.nonce < nonce → bfd.Plain nonce) :
    bfd.Reports (bfd.checkFork moment order).1 := by
  have hheaders : ∀ entry ∈ order, entry.2 = bfd.headersAt entry.1 := by
    intro entry hentry
    unfold headersAt
    rw [(horder.2 entry.1 entry.2).1 hentry, Option.getD_some]
  have hreport : ∀ entry ∈ order, ((bfd.reportAt entry.1 entry.2).isSome ↔ bfd.ForkAt entry.1) := by
    intro entry hentry
    have hspec := reportAt_spec (hplain entry.1)
    rw [hheaders entry hentry]
    cases hreport : bfd.reportAt entry.1 (bfd.headersAt entry.1) with
    | none =>
      rw [hreport] at hspec
      exact ⟨nofun, fun hfork => absurd hfork hspec⟩
    | some report =>
      rw [hreport] at hspec
      exact ⟨fun _ => hspec.1, fun _ => rfl⟩
  have hfork : ∀ nonce, bfd.ForkAt nonce → ∃ entry ∈ order, entry.1 = nonce := by
    rintro nonce ⟨-, self, hself, -⟩
    cases hlookup : bfd.headers.lookup nonce with
    | none =>
      rw [headersAt, hlookup] at hself
      cases hself
    | some infos => exact ⟨(nonce, infos), (horder.2 nonce infos).2 hlookup, rfl⟩
  have hbound : ∀ nonce, bfd.ForkAt nonce → nonce < maxUint64 := by
    rintro nonce ⟨hfinal, self, hself, -⟩
    have hadmitted := ((hplain nonce hfinal).admitted self hself).2
    grind
  have hfold : bfd.SmallestOf order (order.foldl bfd.checkForkAt {}) := checkForkAt_fold
    fun entry hentry hsome => hbound entry.1 ((hreport entry hentry).1 hsome)
  rw [checkFork_eq hstuck hrollBack]
  rcases hfold with ⟨hempty, hnone⟩ | ⟨entry, hentry, hsome, hsmallest⟩
  · have hno : ¬ ∃ nonce, bfd.ForkAt nonce := by
      rintro ⟨nonce, hat⟩
      obtain ⟨entry, hentry, rfl⟩ := hfork nonce hat
      have hisSome := (hreport entry hentry).2 hat
      rw [hnone entry hentry] at hisSome
      cases hisSome
    rw [hempty]
    exact ⟨⟨nofun, fun h => absurd h hno⟩, fun _ => rfl, nofun⟩
  · generalize order.foldl bfd.checkForkAt {} = info at hsome hsmallest ⊢
    obtain ⟨hnonce, hdetected⟩ := reportAt_nonce hsome
    have hspec := reportAt_spec (hplain entry.1)
    rw [← hheaders entry hentry, hsome] at hspec
    obtain ⟨hat, best, hbest, hinfo⟩ := hspec
    refine ⟨⟨fun _ => ⟨entry.1, hat⟩, fun _ => hdetected⟩, fun h => ?_, fun _ => ⟨?_, ?_, best, ?_⟩⟩
    · rw [hdetected] at h
      cases h
    · rwa [hnonce]
    · intro nonce hat'
      obtain ⟨entry', hentry', rfl⟩ := hfork nonce hat'
      exact hsmallest entry' hentry' ((hreport entry' hentry').2 hat')
    · rw [hinfo]
      exact ⟨hbest, rfl, rfl⟩

/-- Two detectors know the same headers, whatever the order they arrived in. -/
structure SameKnowledge (a b : ForkDetector) : Prop where
  headers : ∀ nonce info, info ∈ a.headersAt nonce ↔ info ∈ b.headersAt nonce
  final : a.finalCheckpoint.nonce = b.finalCheckpoint.nonce
  highest : a.highestNonceReceived = b.highestNonceReceived

variable {other : ForkDetector}

theorem SameKnowledge.forkAt (h : SameKnowledge bfd other) (nonce : UInt64) :
    bfd.ForkAt nonce ↔ other.ForkAt nonce := by
  unfold ForkAt
  simp only [h.headers, h.final, h.highest]

theorem SameKnowledge.plain (h : SameKnowledge bfd other) {nonce : UInt64}
    (hplain : bfd.Plain nonce) : other.Plain nonce := by
  obtain ⟨hadmitted, hstate, hprocessed, hhash⟩ := hplain
  simp only [h.headers] at hadmitted hstate hprocessed hhash
  exact ⟨hadmitted, hstate, hprocessed, hhash⟩

theorem BestAt.unique {nonce : UInt64} {a b : HeaderInfo} (ha : bfd.BestAt nonce a)
    (hb : bfd.BestAt nonce b) : a.slot = b.slot ∧ a.hash = b.hash := by
  have hab := hb.2.2 a ha.1 ha.2.1
  have hba := ha.2.2 b hb.1 hb.2.1
  unfold HeaderInfo.Better HeaderInfo.Lower at hab hba
  grind

theorem Reports.unique {a b : ForkInfo} (ha : bfd.Reports a) (hb : bfd.Reports b) : a = b := by
  cases hdetected : a.isDetected with
  | false =>
    have hno : ¬ b.isDetected = true := fun h => by
      rw [ha.detected.2 (hb.detected.1 h)] at hdetected
      cases hdetected
    rw [ha.nothing hdetected, hb.nothing (Bool.eq_false_iff.2 hno)]
  | true =>
    have hdetected' := hb.detected.2 (ha.detected.1 hdetected)
    obtain ⟨hforkA, hsmallestA, bestA, hbestA, hslotA, hhashA⟩ := ha.smallest hdetected
    obtain ⟨hforkB, hsmallestB, bestB, hbestB, hslotB, hhashB⟩ := hb.smallest hdetected'
    have hnonce : a.nonce = b.nonce := by
      have hle := hsmallestA b.nonce hforkB
      have hge := hsmallestB a.nonce hforkA
      grind
    rw [← hnonce] at hbestB
    obtain ⟨hslot, hhash⟩ := hbestA.unique hbestB
    obtain ⟨_, _, _, _⟩ := a
    obtain ⟨_, _, _, _⟩ := b
    simp_all

/-- **Fork choice is order independent.**  With no forced rollback pending and the consensus not
stuck, and at most one processed header and otherwise only received headers at each nonce above the
final one, `CheckFork` detects a fork exactly when some received header is better than the processed
one of its nonce; it reports the smallest such nonce and the best header there.  A detector that knows
the same headers, in whatever order they arrived and the map is ranged over, reports the same. -/
theorem fork_choice_order_independent (bfd : ForkDetector) (moment : Moment)
    (order : List (UInt64 × List HeaderInfo)) (horder : Finmap.Enumerates order bfd.headers)
    (hstuck : (bfd.isConsensusStuck moment).1 = false) (hrollBack : bfd.rollBackNonce = maxUint64)
    (hplain : ∀ nonce, bfd.finalCheckpoint.nonce < nonce → bfd.Plain nonce) :
    bfd.Reports (bfd.checkFork moment order).1 ∧
      ∀ (other : ForkDetector) (moment' : Moment) (order' : List (UInt64 × List HeaderInfo)),
        SameKnowledge bfd other → Finmap.Enumerates order' other.headers →
        (other.isConsensusStuck moment').1 = false → other.rollBackNonce = maxUint64 →
        (other.checkFork moment' order').1 = (bfd.checkFork moment order).1 := by
  have hreports := checkFork_reports horder hstuck hrollBack hplain
  refine ⟨hreports, fun other moment' order' hsame horder' hstuck' hrollBack' => ?_⟩
  have hreports' := checkFork_reports horder' hstuck' hrollBack' fun nonce hfinal =>
    hsame.plain (hplain nonce (by rwa [hsame.final]))
  refine Reports.unique ?_ hreports
  exact ⟨by simpa only [hsame.forkAt] using hreports'.detected, hreports'.nothing, by
    simpa only [hsame.forkAt, BestAt, hsame.headers] using hreports'.smallest⟩

/-- The node has processed a header, and one of an earlier slot was received. -/
def forkedHeaders : List HeaderInfo :=
  [⟨1, 1, 5, [2], .BHProcessed⟩, ⟨1, 1, 4, [3], .BHReceived⟩]

def forkedDetector : ForkDetector where
  genesisTime := 0
  headers := (∅ : Finmap fun _ : UInt64 => List HeaderInfo).insert 1 forkedHeaders
  highestNonceReceived := 1
  probableHighestNonce := 1

def forkedMoment : Moment where
  slotIndex := 6
  now := 0
  isBlackListed _ := false
  genesisTimeFromHeader _ := 0

theorem forkedDetector_headersAt (nonce : UInt64) :
    forkedDetector.headersAt nonce = if nonce = 1 then forkedHeaders else [] := by
  unfold headersAt forkedDetector
  rw [Finmap.lookup_insert_ite]
  split <;> rfl

theorem forkedDetector_plain (nonce : UInt64) : forkedDetector.Plain nonce := by
  by_cases h : nonce = 1
  · subst h
    have hheaders : forkedDetector.headersAt 1 = forkedHeaders := by
      rw [forkedDetector_headersAt, if_pos rfl]
    constructor <;> rw [hheaders]
    · intro info hinfo
      unfold HeaderInfo.Admitted
      revert info
      decide
    all_goals decide
  · have hheaders : forkedDetector.headersAt nonce = [] := by
      rw [forkedDetector_headersAt, if_neg h]
    constructor <;> rw [hheaders] <;> exact nofun

theorem fork_choice_reports_earlier_slot :
    forkedDetector.Reports (forkedDetector.checkFork forkedMoment [(1, forkedHeaders)]).1 ∧
      (forkedDetector.checkFork forkedMoment [(1, forkedHeaders)]).1 = ⟨true, 1, 4, some [3]⟩ := by
  refine ⟨(fork_choice_order_independent forkedDetector forkedMoment [(1, forkedHeaders)] ?_
    (by decide +kernel) rfl fun nonce _ => forkedDetector_plain nonce).1, by decide +kernel⟩
  refine ⟨by decide, fun nonce infos => ?_⟩
  unfold forkedDetector
  rw [Finmap.lookup_insert_ite, mem_singleton]
  split
  · next h => simp [h, eq_comm]
  · next h => simp [h]

end ForkDetector

end KleverGo.Sync
