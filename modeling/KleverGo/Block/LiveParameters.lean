import KleverGo.Block.Reload

/-!
# When the live parameters follow the head

* `Steady`: what holds of a node between two attempts.
* `HoldsWhen`: the condition of an attempt, on the node before it.
* `Steady.attempt`: an attempt leaves the live parameters following the head exactly under its
  condition.
* `live_parameters_follow_head`: so does every run whose attempts meet theirs.
-/

namespace KleverGo.Blocks

open Governance List Option

/-! ## Attempts -/

/-- A block stays in the epoch of its parent or is the start of the next one. -/
def Follows (head : Committed) (blk : Block) : Prop :=
  (blk.isEpochStart = false ∧ blk.epoch = head.epoch) ∨
    (blk.isEpochStart = true ∧ blk.epoch.toNat = head.epoch.toNat + 1)

/-- A block that is to be accepted follows the head. -/
def Admissible (n : Node) : Attempt → Prop
  | .process blk rejectedAt => rejectedAt = none → Follows n.head blk
  | .create blk _ => Follows n.head blk
  | .rollback => True

section
variable (P : Platform) (cfg : EnableEpochs)

/-- The start of an epoch settles a proposal, or the forks of the epoch add no parameter that is
not stored. -/
def EpochStartHolds (n : Node) (blk : Block) : Prop :=
  blk.isEpochStart = true →
    n.head.tries.proposals.controller.activeProposals.lookup blk.epoch ≠ none ∨
      Complete (cfg.epochConfirmed blk.epoch) n.head.stored

/-- The condition of an attempt.  A block that was created and is given up, and a rollback, reload
the parameters under fork flags that nobody takes back: no fork of that epoch may add a parameter
that is not stored at the head the node goes back to. -/
def HoldsWhen (n : Node) : Attempt → Prop
  | .process blk none => EpochStartHolds cfg n blk
  | .process _ (some _) => True
  | .create blk commits =>
    if (createBlock P cfg n blk).2 && commits then EpochStartHolds cfg n blk
    else Complete (cfg.epochConfirmed (n.notifier.checkEpoch blk.epoch).confirmed) n.head.stored
  | .rollback => ∀ parent ∈ n.ancestors.head?, Complete (n.forks cfg) parent.stored

end

/-- What holds of a node between two attempts: the tries are those of the head, the live parameters
follow it, the fork flags are of no earlier epoch and add no parameter that is not stored, and on
the whole chain epochs go up and only known parameters are stored. -/
structure Steady (cfg : EnableEpochs) (n : Node) : Prop where
  working : n.working = n.head.tries
  follows : FollowsHead cfg n
  current : n.notifier.currentEpoch ≤ n.notifier.confirmed
  flags : n.head.epoch ≤ n.notifier.confirmed
  complete : Complete (n.forks cfg) n.head.stored
  within : ∀ c ∈ n.head :: n.ancestors, Within (cfg.epochConfirmed c.epoch) c.stored
  sorted : (n.head :: n.ancestors).Pairwise fun a b => b.epoch ≤ a.epoch

theorem EpochNotifier.checkEpoch_spec (notifier : EpochNotifier) (epoch : UInt32)
    (h : notifier.currentEpoch ≤ notifier.confirmed) :
    (notifier.checkEpoch epoch).currentEpoch = epoch ∧
      epoch ≤ (notifier.checkEpoch epoch).confirmed ∧
      ((notifier.checkEpoch epoch).confirmed = epoch ∨
        (notifier.checkEpoch epoch).confirmed = notifier.confirmed ∧
          notifier.currentEpoch = epoch) := by
  unfold EpochNotifier.checkEpoch
  split
  · rename_i heq
    exact ⟨heq, heq ▸ h, .inr ⟨rfl, heq⟩⟩
  · exact ⟨rfl, UInt32.le_refl _, .inl rfl⟩

/-! ## Execution -/

section
variable {P : Platform} {cfg : EnableEpochs} {fc : ForkController}

theorem execGov_activeParameters {s s' : Chain} {tx : GovTx} (h : execGov P fc s tx = .ok s')
    (hcall : tx.call ≠ .settle) :
    s'.proposals.controller.activeParameters = s.proposals.controller.activeParameters := by
  unfold execGov at h
  cases hc : tx.call with
  | create tc =>
    rw [hc] at h
    obtain ⟨-, staking, rfl⟩ := create_spec (mapError_eq_ok.1 h)
    rw [finalizeProposal_eq]
    rfl
  | vote tc =>
    rw [hc] at h
    obtain ⟨_, _, _, σ', _, -, -, -, -, -, hindex, rfl⟩ := vote_spec (mapError_eq_ok.1 h)
    obtain ⟨votes, rfl⟩ := indexVote_frame hindex
    rfl
  | freeze amount =>
    rw [hc] at h
    have hfreeze := mapError_eq_ok.1 h
    simp only [Staking.kappFreeze, bind_eq_ok, pure_eq_ok] at hfreeze
    obtain ⟨_, -, _, -, _, -, _, -, _, -, _, -, _, -, _, -, _, -, _, -, _, -, _, -, rfl⟩ := hfreeze
    rfl
  | unfreeze bucketID =>
    rw [hc] at h
    obtain ⟨_, _, _, -, hvotes⟩ := kappUnfreeze_votes (mapError_eq_ok.1 h)
    rw [(updateVotes_terms hvotes).controller]
  | settle => exact absurd hc hcall

theorem processBlockTransactions_activeParameters (n : Node) (transactions : List GovTx) :
    (processBlockTransactions P cfg n transactions).proposals.controller.activeParameters =
      n.working.proposals.controller.activeParameters := by
  refine foldlRecOn (motive := fun s : Chain => s.proposals.controller.activeParameters =
    n.working.proposals.controller.activeParameters) _ _ rfl fun s hs tx htx => ?_
  have hcall : tx.call ≠ .settle := by
    intro hsettle
    have := (mem_filter.1 htx).2
    rw [isTransaction, hsettle] at this
    cases this
  unfold attemptGov
  cases hexec : execGov P (n.forks cfg) s { tx with params := n.live } with
  | error e => exact hs
  | ok s' => exact (execGov_activeParameters hexec hcall).trans hs

/-- The start of an epoch from a live set that is the stored one: without a bucket the store
stays and the live set is merged; with one, the parameters are settled and the live set is what is
stored. -/
theorem processProposalsEndOfEpoch_live {epoch : UInt32} {s : Chain} {live : Parameters}
    {r : Chain × Parameters}
    (hlive : ∀ c, live.lookup c = s.proposals.controller.activeParameters.lookup c)
    (h : processProposalsEndOfEpoch fc epoch s live = .ok r) :
    (s.proposals.controller.activeProposals.lookup epoch = none ∧ r.1 = s ∧
      ∀ c, r.2.lookup c = (merged fc s.proposals.controller).lookup c) ∨
    (s.proposals.controller.activeProposals.lookup epoch ≠ none ∧
      SameTypes (merged fc s.proposals.controller) r.1.proposals.controller.activeParameters ∧
      ∀ c, r.2.lookup c = r.1.proposals.controller.activeParameters.lookup c) := by
  -- the live set after the merge
  have hmerge : ∀ c, (if (mergeInitialParameters fc s.proposals.controller).2 = true then
      live.updateParameters (merged fc s.proposals.controller) else live).lookup c =
        (merged fc s.proposals.controller).lookup c := by
    intro c
    unfold merged mergeInitialParameters
    split
    · exact hlive c
    · rw [if_pos rfl, Parameters.lookup_updateParameters, hlive, lookup_mergedParameters]
      cases s.proposals.controller.activeParameters.lookup c <;> simp
  unfold processProposalsEndOfEpoch at h
  simp only [mergeInitialParameters_activeProposals] at h
  cases hids : s.proposals.controller.activeProposals.lookup epoch with
  | none =>
    rw [hids] at h
    cases h
    exact .inl ⟨rfl, rfl, hmerge⟩
  | some ids =>
    rw [hids] at h
    simp only [bind_eq_ok, pure_eq_ok] at h
    obtain ⟨kfi, -, ⟨σ', live'⟩, hsettle, rfl⟩ := h
    obtain ⟨hsame, rfl⟩ := settleBucket_parameters hsettle
    refine .inr ⟨some_ne_none ids, hsame, fun c => ?_⟩
    rw [Parameters.lookup_updateParameters]
    cases hc : σ'.controller.activeParameters.lookup c with
    | some q => rfl
    | none =>
      -- a parameter that is not settled was not merged either
      have hnone := hsame c
      rw [hc, map_none, eq_comm, map_eq_none_iff] at hnone
      rw [none_or]
      exact (hmerge c).trans hnone

end

/-! ## Steps -/

section
variable {P : Platform} {cfg : EnableEpochs} {n m : Node} {blk : Block}

theorem Follows.epoch_le (h : Follows n.head blk) : n.head.epoch ≤ blk.epoch := by
  rw [UInt32.le_iff_toNat_le]
  rcases h with ⟨-, h⟩ | ⟨-, h⟩
  · rw [h]
  · omega

/-- The start of the next epoch passes the check of the epoch.  (A block of the last epoch does
not: the bound of the check wraps around.) -/
theorem epochValid_of_start (h : blk.epoch.toNat = n.head.epoch.toNat + 1) :
    epochValid n.head blk = true := by
  have hlt := blk.epoch.toNat_lt
  have hone : (1 : UInt32).toNat = 1 := rfl
  simp only [epochValid, Bool.not_eq_true', Bool.or_eq_false_iff, decide_eq_false_iff_not,
    UInt32.lt_iff_toNat_lt, UInt32.toNat_add, hone]
  omega

section
variable (hs : Steady cfg n)
include hs

/-- What the merge under the flags of a block gives, for a node that follows its head. -/
theorem Steady.merged_eq {epoch : UInt32} (hle : n.head.epoch ≤ epoch) (c : Int32) :
    (merged (cfg.epochConfirmed (n.notifier.checkEpoch epoch).confirmed)
      n.head.tries.proposals.controller).lookup c = (n.head.stored.lookup c).or
        ((initialProposalParameters (cfg.epochConfirmed epoch)).lookup c) := by
  obtain ⟨-, hconf, hcases⟩ := n.notifier.checkEpoch_spec epoch hs.current
  rcases hcases with heq | ⟨heq, -⟩
  · rw [heq]
    exact merged_of_within ((hs.within n.head mem_cons_self).of_le hle) c
  -- the flags do not move and add nothing
  rw [heq] at hconf ⊢
  refine (merged_of_complete hs.complete c).trans ?_
  change n.head.stored.lookup c = _
  cases hc : n.head.stored.lookup c with
  | some q => rfl
  | none =>
    rw [none_or, eq_comm]
    by_contra hnot
    exact hs.complete.of_le hconf c hnot hc

/-- The flags of a block add no parameter to a store that has those of its epoch. -/
theorem Steady.complete_checkEpoch {epoch : UInt32} {stored : Parameters}
    (hstored : ∀ c, n.head.stored.lookup c ≠ none → stored.lookup c ≠ none)
    (h : Complete (cfg.epochConfirmed epoch) stored) :
    Complete (cfg.epochConfirmed (n.notifier.checkEpoch epoch).confirmed) stored := by
  obtain ⟨-, -, heq | ⟨heq, -⟩⟩ := n.notifier.checkEpoch_spec epoch hs.current
  · rw [heq]
    exact h
  · rw [heq]
    exact fun c hc => hstored c (hs.complete c hc)

theorem Steady.commit (hm : m.head = n.head) (ha : m.ancestors = n.ancestors)
    (hn : m.notifier = n.notifier.checkEpoch blk.epoch) (hle : n.head.epoch ≤ blk.epoch)
    (hkeys : ∀ c, n.head.stored.lookup c ≠ none →
      m.working.proposals.controller.activeParameters.lookup c ≠ none)
    (hwithin : Within (cfg.epochConfirmed blk.epoch)
      m.working.proposals.controller.activeParameters)
    (hfollows : FollowsHead cfg (commitBlock m blk))
    (hcomplete : Complete (cfg.epochConfirmed blk.epoch)
      m.working.proposals.controller.activeParameters) : Steady cfg (commitBlock m blk) := by
  obtain ⟨hcurrent, hconf, -⟩ := n.notifier.checkEpoch_spec blk.epoch hs.current
  refine ⟨rfl, hfollows, ?_, ?_, ?_, ?_, ?_⟩
  · simp only [commitBlock, hn, hcurrent]
    exact hconf
  · simp only [commitBlock, hn]
    exact hconf
  · simp only [commitBlock, Node.forks, hn]
    exact hs.complete_checkEpoch hkeys hcomplete
  · intro c hc
    simp only [commitBlock, hm, ha, mem_cons] at hc
    rcases hc with rfl | hc
    · exact hwithin
    · exact hs.within c (mem_cons.2 hc)
  · simp only [commitBlock, hm, ha]
    refine pairwise_cons.2 ⟨fun c hc => ?_, hs.sorted⟩
    rcases mem_cons.1 hc with rfl | hc
    · exact hle
    · exact UInt32.le_trans ((pairwise_cons.1 hs.sorted).1 c hc) hle

/-- An accepted block of transactions changes no parameter. -/
theorem Steady.acceptTransactions (hepoch : blk.epoch = n.head.epoch) (hm : m = { n with
      notifier := n.notifier.checkEpoch blk.epoch
      working := processBlockTransactions P cfg
        { n with notifier := n.notifier.checkEpoch blk.epoch } blk.transactions }) :
    Steady cfg (commitBlock m blk) := by
  have hstored : m.working.proposals.controller.activeParameters = n.head.stored := by
    rw [hm]
    refine (processBlockTransactions_activeParameters _ _).trans ?_
    rw [hs.working]
    rfl
  have hcomplete : Complete (cfg.epochConfirmed n.head.epoch) n.head.stored :=
    hs.complete.of_le hs.flags
  refine hs.commit (by rw [hm]) (by rw [hm]) (by rw [hm]) (by rw [hepoch]; exact UInt32.le_refl _)
    (fun c hc => by rw [hstored]; exact hc) ?_ ?_ (by rw [hstored, hepoch]; exact hcomplete)
  · rw [hstored, hepoch]
    exact hs.within n.head mem_cons_self
  have hlive : m.live = n.live := by rw [hm]
  refine ⟨fun c => ?_, fun c hc => ?_⟩
  · simp only [commitBlock, Committed.stored, hstored, hepoch, hlive]
    exact hs.follows.synced c
  · simp only [commitBlock, Committed.stored, hstored, hlive] at hc ⊢
    exact hs.follows.known c hc

/-- An accepted start of an epoch follows the head under its condition. -/
theorem Steady.acceptEpochStart (hle : n.head.epoch ≤ blk.epoch) (hm : m.head = n.head)
    (ha : m.ancestors = n.ancestors) (hn : m.notifier = n.notifier.checkEpoch blk.epoch)
    (hexec : processProposalsEndOfEpoch
      (cfg.epochConfirmed (n.notifier.checkEpoch blk.epoch).confirmed) blk.epoch n.working n.live =
        .ok (m.working, m.live)) :
    (FollowsHead cfg (commitBlock m blk) ↔
      n.head.tries.proposals.controller.activeProposals.lookup blk.epoch ≠ none ∨
        Complete (cfg.epochConfirmed blk.epoch) n.head.stored) ∧
    (FollowsHead cfg (commitBlock m blk) → Steady cfg (commitBlock m blk)) := by
  have hlive : ∀ c, n.live.lookup c =
      n.working.proposals.controller.activeParameters.lookup c := by
    rw [hs.working]
    exact hs.follows.live_eq
  have hwithin := (hs.within n.head mem_cons_self).of_le hle
  have hmerged := hs.merged_eq hle
  have hspec := processProposalsEndOfEpoch_live hlive hexec
  rw [hs.working] at hspec
  rcases hspec with ⟨hnone, hsame, hlive'⟩ | ⟨hbucket, htypes, hlive'⟩
  · -- nothing to settle: the store stays and the live set is filled in
    have hstored : m.working.proposals.controller.activeParameters = n.head.stored :=
      congrArg (fun s : Chain => s.proposals.controller.activeParameters) hsame
    have hiff : FollowsHead cfg (commitBlock m blk) ↔
        Complete (cfg.epochConfirmed blk.epoch) n.head.stored := by
      rw [← hstored] at hwithin hmerged ⊢
      exact commit_followsHead_iff (fun c => (hlive' c).trans (hmerged c)) hwithin
    refine ⟨?_, fun h => ?_⟩
    · rw [hiff, hnone]
      simp
    · refine hs.commit hm ha hn hle (fun c hc => by rw [hstored]; exact hc)
        (by rw [hstored]; exact hwithin) h (by rw [hstored]; exact hiff.1 h)
  · -- the bucket is settled, and with it the initial values are stored
    have hkeys : ∀ c, m.working.proposals.controller.activeParameters.lookup c = none ↔
        n.head.stored.lookup c = none ∧
          (initialProposalParameters (cfg.epochConfirmed blk.epoch)).lookup c = none := by
      intro c
      have htype := htypes c
      rw [hmerged] at htype
      rw [← map_eq_none_iff, htype, map_eq_none_iff, or_eq_none_iff]
    have hcomplete : Complete (cfg.epochConfirmed blk.epoch)
        m.working.proposals.controller.activeParameters :=
      fun c hc hnone => hc ((hkeys c).1 hnone).2
    have hwithin' : Within (cfg.epochConfirmed blk.epoch)
        m.working.proposals.controller.activeParameters := by
      intro c hc hnone
      refine hc ((hkeys c).2 ⟨?_, hnone⟩)
      by_contra hnot
      exact hwithin c hnot hnone
    have hfollows : FollowsHead cfg (commitBlock m blk) := by
      refine (commit_followsHead_iff (fun c => ?_) hwithin').2 hcomplete
      refine (hlive' c).trans ?_
      cases hc : m.working.proposals.controller.activeParameters.lookup c with
      | some q => rfl
      | none => rw [none_or, ((hkeys c).1 hc).2]
    refine ⟨iff_of_true hfollows (.inl hbucket), fun h => ?_⟩
    exact hs.commit hm ha hn hle (fun c hc hnone => hc ((hkeys c).1 hnone).1) hwithin' h hcomplete

/-- A revert to the snapshot follows the head under the flags it runs with. -/
theorem Steady.revert (hm : m.head = n.head) (ha : m.ancestors = n.ancestors)
    (hcurrent : m.notifier.currentEpoch ≤ m.notifier.confirmed)
    (hflags : n.head.epoch ≤ m.notifier.confirmed) :
    (FollowsHead cfg (revertStateToSnapshot cfg m) ↔
      Complete (cfg.epochConfirmed m.notifier.confirmed) n.head.stored) ∧
    (FollowsHead cfg (revertStateToSnapshot cfg m) →
      Steady cfg (revertStateToSnapshot cfg m)) := by
  have hhead : (revertStateToSnapshot cfg m).head = n.head := hm
  have hiff : FollowsHead cfg (revertStateToSnapshot cfg m) ↔
      Complete (cfg.epochConfirmed m.notifier.confirmed)
        (revertStateToSnapshot cfg m).head.stored :=
    reload_followsHead (n := revertStateToSnapshot cfg m) (hm ▸ hflags)
      (hm ▸ hs.within n.head mem_cons_self) fun c => rfl
  rw [hhead] at hiff
  refine ⟨hiff, fun h => ⟨rfl, h, hcurrent, hm ▸ hflags, hm ▸ hiff.1 h, ?_, ?_⟩⟩
  · intro c hc
    refine hs.within c ?_
    rw [← hm, ← ha]
    exact hc
  · have hsorted := hs.sorted
    rw [← hm, ← ha] at hsorted
    exact hsorted

/-- A rejected block leaves a node that follows its head. -/
theorem Steady.reject (hm : m.head = n.head) (ha : m.ancestors = n.ancestors)
    (hn : m.notifier = n.notifier.checkEpoch blk.epoch) : Steady cfg (rejectBlock cfg n m blk) := by
  obtain ⟨hcurrent, hconf, hcases⟩ := n.notifier.checkEpoch_spec blk.epoch hs.current
  have hbetween : n.head.epoch ≤ epochToRestore n.notifier.currentEpoch n.head.epoch ∧
      epochToRestore n.notifier.currentEpoch n.head.epoch ≤ n.notifier.confirmed := by
    unfold epochToRestore
    split
    · rename_i hle
      exact ⟨hle, hs.current⟩
    · exact ⟨UInt32.le_refl _, hs.flags⟩
  generalize hprev : epochToRestore n.notifier.currentEpoch n.head.epoch = prev at hbetween
  obtain ⟨hcurrent', hconf', hcases'⟩ := m.notifier.checkEpoch_spec prev
    (by rw [hn, hcurrent]; exact hconf)
  -- the flags end in the epoch that is restored, or where they were
  have hback : (m.notifier.checkEpoch prev).confirmed = prev ∨
      (m.notifier.checkEpoch prev).confirmed = n.notifier.confirmed := by
    rcases hcases' with h | ⟨h, hsame⟩
    · exact .inl h
    rw [hn, hcurrent] at hsame
    rw [h, hn]
    rcases hcases with h1 | ⟨h1, -⟩
    · exact .inl (h1.trans hsame)
    · exact .inr h1
  have hcomplete : Complete (cfg.epochConfirmed (m.notifier.checkEpoch prev).confirmed)
      n.head.stored := by
    rcases hback with h | h
    · rw [h]
      exact Complete.of_le hbetween.2 hs.complete
    · rw [h]
      exact hs.complete
  obtain ⟨hiff, hsteady⟩ := hs.revert (m := { m with notifier := m.notifier.checkEpoch prev }) hm ha
    (by rw [hcurrent']; exact hconf') (UInt32.le_trans hbetween.1 hconf')
  have hreverted := hsteady (hiff.2 hcomplete)
  unfold rejectBlock
  simp only [hprev]
  split
  · -- the live set of the snapshot
    refine ⟨hreverted.working, ?_, hreverted.current, hreverted.flags, hreverted.complete,
      hreverted.within, hreverted.sorted⟩
    refine ⟨fun c => ?_, fun c hc => ?_⟩
    · exact (hs.follows.synced c).trans (by rw [← hm]; rfl)
    · have hknown := hs.follows.known c hc
      rw [← hm] at hknown
      exact hknown
  · exact hreverted

/-- A rollback follows the parent under the flags of the head that is given up. -/
theorem Steady.rollback :
    (FollowsHead cfg (revertStateToBlock cfg n) ↔
      ∀ parent ∈ n.ancestors.head?, Complete (n.forks cfg) parent.stored) ∧
    (FollowsHead cfg (revertStateToBlock cfg n) → Steady cfg (revertStateToBlock cfg n)) := by
  unfold revertStateToBlock
  split
  · rename_i hnone
    rw [hnone]
    exact ⟨iff_of_true hs.follows (by simp), fun _ => hs⟩
  rename_i parent rest hancestors
  have hsorted := hs.sorted
  rw [hancestors, pairwise_cons] at hsorted
  have hparent : parent.epoch ≤ n.notifier.confirmed :=
    UInt32.le_trans (hsorted.1 parent mem_cons_self) hs.flags
  have hwithin : ∀ c ∈ parent :: rest, Within (cfg.epochConfirmed c.epoch) c.stored := by
    intro c hc
    refine hs.within c (mem_cons_of_mem _ ?_)
    rw [hancestors]
    exact hc
  have hiff : FollowsHead cfg (reloadProposalParameters cfg
      { n with head := parent, ancestors := rest, working := parent.tries }) ↔
      Complete (n.forks cfg) parent.stored :=
    reload_followsHead (n := reloadProposalParameters cfg
      { n with head := parent, ancestors := rest, working := parent.tries }) hparent
      (hwithin parent mem_cons_self) fun c => rfl
  refine ⟨hiff.trans ?_, fun h => ⟨rfl, h, hs.current, hparent, hiff.1 h, hwithin, hsorted.2⟩⟩
  rw [hancestors]
  simp only [head?_cons, mem_some_iff, forall_eq']

end

theorem execute_spec (h : execute P cfg n blk = .ok m) :
    m.head = n.head ∧ m.ancestors = n.ancestors ∧ m.notifier = n.notifier ∧
    (blk.isEpochStart = false →
      m = { n with working := processBlockTransactions P cfg n blk.transactions }) ∧
    (blk.isEpochStart = true → processProposalsEndOfEpoch (n.forks cfg) blk.epoch n.working n.live =
      .ok (m.working, m.live)) := by
  unfold execute at h
  split at h
  · rename_i hstart
    simp only [bind_eq_ok, pure_eq_ok] at h
    obtain ⟨⟨working, live⟩, hok, rfl⟩ := h
    exact ⟨rfl, rfl, rfl, fun hnot => by simp [hstart] at hnot, fun _ => hok⟩
  · rename_i hstart
    simp only [pure_eq_ok] at h
    subst h
    exact ⟨rfl, rfl, rfl, fun _ => rfl, fun hyes => absurd hyes hstart⟩

/-- An accepted block follows the head under its condition. -/
theorem Steady.accept (hs : Steady cfg n) (hf : Follows n.head blk)
    (hexec : execute P cfg { n with notifier := n.notifier.checkEpoch blk.epoch } blk = .ok m) :
    (FollowsHead cfg (commitBlock m blk) ↔ EpochStartHolds cfg n blk) ∧
    (FollowsHead cfg (commitBlock m blk) → Steady cfg (commitBlock m blk)) := by
  obtain ⟨hm, ha, hn, htransactions, hsettle⟩ := execute_spec hexec
  rcases hf with ⟨hstart, hepoch⟩ | ⟨hstart, hepoch⟩
  · have hsteady := hs.acceptTransactions hepoch (htransactions hstart)
    refine ⟨iff_of_true hsteady.follows fun h => ?_, fun _ => hsteady⟩
    rw [hstart] at h
    cases h
  · obtain ⟨hiff, hsteady⟩ := hs.acceptEpochStart (Follows.epoch_le (.inr ⟨hstart, hepoch⟩)) hm ha hn
      (hsettle hstart)
    refine ⟨hiff.trans ⟨fun h _ => h, fun h => h hstart⟩, hsteady⟩

theorem execute_ok (hstart : blk.isEpochStart = true)
    (h : n.working.proposals.controller.activeProposals.lookup blk.epoch = none) :
    ∃ m, execute P cfg n blk = .ok m := by
  unfold execute
  rw [if_pos hstart]
  unfold processProposalsEndOfEpoch
  simp only [mergeInitialParameters_activeProposals, h]
  exact ⟨_, rfl⟩

/-- How `ProcessBlock` ends: with nothing touched, with a rejection, or with an accepted block. -/
theorem processBlock_cases (P : Platform) (cfg : EnableEpochs) (n : Node) (blk : Block)
    (rejectedAt : Option Check) :
    (processBlock P cfg n blk rejectedAt = (n, false) ∧
      (rejectedAt = some .validity ∨ epochValid n.head blk = false)) ∨
    (∃ m, m.head = n.head ∧ m.ancestors = n.ancestors ∧
      m.notifier = n.notifier.checkEpoch blk.epoch ∧
      processBlock P cfg n blk rejectedAt = (rejectBlock cfg n m blk, false) ∧
      (rejectedAt = none → ∃ e, execute P cfg
        { n with notifier := n.notifier.checkEpoch blk.epoch } blk = .error e)) ∨
    ∃ m, execute P cfg { n with notifier := n.notifier.checkEpoch blk.epoch } blk = .ok m ∧
      rejectedAt = none ∧ processBlock P cfg n blk rejectedAt = (m, true) := by
  unfold processBlock
  by_cases hvalid : rejectedAt = some .validity ∨ epochValid n.head blk = false
  · exact .inl ⟨if_pos hvalid, hvalid⟩
  refine .inr ?_
  rw [if_neg hvalid]
  by_cases hbefore : rejectedAt = some .beforeExecution
  · refine .inl ⟨{ n with notifier := n.notifier.checkEpoch blk.epoch }, rfl, rfl, rfl,
      if_pos hbefore, fun hnone => ?_⟩
    rw [hnone] at hbefore
    cases hbefore
  rw [if_neg hbefore]
  cases hexec : execute P cfg { n with notifier := n.notifier.checkEpoch blk.epoch } blk with
  | error e =>
    exact .inl ⟨{ n with notifier := n.notifier.checkEpoch blk.epoch }, rfl, rfl, rfl, rfl,
      fun _ => ⟨e, rfl⟩⟩
  | ok m =>
    obtain ⟨hm, ha, hn, -⟩ := execute_spec hexec
    by_cases hafter : rejectedAt = some .afterExecution
    · refine .inl ⟨m, hm, ha, hn, if_pos hafter, fun hnone => ?_⟩
      rw [hnone] at hafter
      cases hafter
    · refine .inr ⟨m, rfl, ?_, if_neg hafter⟩
      cases rejectedAt with
      | none => rfl
      | some check => cases check <;> simp at hvalid hbefore hafter

/-- A processed block follows the head under its condition. -/
theorem Steady.process (hs : Steady cfg n) {rejectedAt : Option Check}
    (ha : rejectedAt = none → Follows n.head blk) :
    (FollowsHead cfg (attempt P cfg n (.process blk rejectedAt)) ↔
      HoldsWhen P cfg n (.process blk rejectedAt)) ∧
    (FollowsHead cfg (attempt P cfg n (.process blk rejectedAt)) →
      Steady cfg (attempt P cfg n (.process blk rejectedAt))) := by
  rcases processBlock_cases P cfg n blk rejectedAt with ⟨heq, hwhy⟩ | ⟨m, hm, hanc, hn, heq, hwhy⟩ |
    ⟨m, hexec, rfl, heq⟩
  · have hsame : attempt P cfg n (.process blk rejectedAt) = n := by
      simp only [Blocks.attempt, heq, Bool.false_eq_true, if_false]
    rw [hsame]
    refine ⟨iff_of_true hs.follows ?_, fun _ => hs⟩
    cases rejectedAt with
    | some check => trivial
    | none =>
      intro hstart
      rcases ha rfl with ⟨hnot, -⟩ | ⟨-, hepoch⟩
      · rw [hstart] at hnot
        cases hnot
      · rw [epochValid_of_start hepoch] at hwhy
        simp at hwhy
  · have hreject : attempt P cfg n (.process blk rejectedAt) = rejectBlock cfg n m blk := by
      simp only [Blocks.attempt, heq, Bool.false_eq_true, if_false]
    have hsteady := hs.reject hm hanc hn
    rw [hreject]
    refine ⟨iff_of_true hsteady.follows ?_, fun _ => hsteady⟩
    cases rejectedAt with
    | some check => trivial
    | none =>
      -- without a bucket the execution would not have failed
      intro hstart
      refine .inl fun hnone => ?_
      rw [← hs.working] at hnone
      obtain ⟨e, herror⟩ := hwhy rfl
      obtain ⟨m, hok⟩ := execute_ok (P := P) (n :=
        { n with notifier := n.notifier.checkEpoch blk.epoch }) hstart hnone
      rw [herror] at hok
      cases hok
  · have haccept : attempt P cfg n (.process blk none) = commitBlock m blk := by
      simp only [Blocks.attempt, heq, if_true]
    rw [haccept]
    exact hs.accept (ha rfl) hexec

/-- A created block, committed or given up. -/
theorem Steady.create (hs : Steady cfg n) {commits : Bool} (hf : Follows n.head blk) :
    (FollowsHead cfg (attempt P cfg n (.create blk commits)) ↔
      HoldsWhen P cfg n (.create blk commits)) ∧
    (FollowsHead cfg (attempt P cfg n (.create blk commits)) →
      Steady cfg (attempt P cfg n (.create blk commits))) := by
  obtain ⟨hcurrent, hconf, -⟩ := n.notifier.checkEpoch_spec blk.epoch hs.current
  have hflags := UInt32.le_trans (Follows.epoch_le hf) hconf
  have hgiveUp : ∀ m : Node, m.head = n.head → m.ancestors = n.ancestors →
      m.notifier = n.notifier.checkEpoch blk.epoch →
      (FollowsHead cfg (revertStateToSnapshot cfg m) ↔
        Complete (cfg.epochConfirmed (n.notifier.checkEpoch blk.epoch).confirmed) n.head.stored) ∧
      (FollowsHead cfg (revertStateToSnapshot cfg m) →
        Steady cfg (revertStateToSnapshot cfg m)) := by
    intro m hm hanc hn
    rw [← hn]
    exact hs.revert hm hanc (by rw [hn, hcurrent]; exact hconf) (by rw [hn]; exact hflags)
  cases hexec : execute P cfg { n with notifier := n.notifier.checkEpoch blk.epoch } blk with
  | error e =>
    have hcreate : createBlock P cfg n blk =
        ({ n with notifier := n.notifier.checkEpoch blk.epoch }, false) := by
      simp only [createBlock, hexec]
    simp only [Blocks.attempt, HoldsWhen, hcreate, Bool.false_and, Bool.false_eq_true, if_false]
    exact hgiveUp _ rfl rfl rfl
  | ok m =>
    obtain ⟨hm, hanc, hn, -⟩ := execute_spec hexec
    have hcreate : createBlock P cfg n blk = (m, true) := by simp only [createBlock, hexec]
    cases commits with
    | true =>
      simp only [Blocks.attempt, HoldsWhen, hcreate, Bool.true_and, if_true]
      exact hs.accept hf hexec
    | false =>
      simp only [Blocks.attempt, HoldsWhen, hcreate, Bool.and_false, Bool.false_eq_true, if_false]
      exact hgiveUp m hm hanc hn

/-- **Every attempt** leaves the live parameters following the head exactly under its condition,
and the node steady. -/
theorem Steady.attempt (hs : Steady cfg n) {a : Attempt} (ha : Admissible n a) :
    (FollowsHead cfg (attempt P cfg n a) ↔ HoldsWhen P cfg n a) ∧
    (FollowsHead cfg (attempt P cfg n a) → Steady cfg (attempt P cfg n a)) := by
  cases a with
  | rollback => exact hs.rollback
  | create blk commits => exact hs.create ha
  | process blk rejectedAt => exact hs.process ha

end

/-- Every attempt of a run is admissible and meets its condition. -/
def AllHold (P : Platform) (cfg : EnableEpochs) : Node → List Attempt → Prop
  | _, [] => True
  | n, a :: rest =>
    Admissible n a ∧ HoldsWhen P cfg n a ∧ AllHold P cfg (attempt P cfg n a) rest

theorem Steady.run {P : Platform} {cfg : EnableEpochs} {n : Node} (hs : Steady cfg n)
    {attempts : List Attempt} (h : AllHold P cfg n attempts) :
    Steady cfg (runAttempts P cfg n attempts) := by
  induction attempts generalizing n with
  | nil => exact hs
  | cons a rest ih =>
    obtain ⟨ha, hholds, hrest⟩ := h
    obtain ⟨hiff, hsteady⟩ := hs.attempt (P := P) ha
    exact ih (hsteady (hiff.2 hholds)) hrest

/-- **The live parameters follow the head** after every run whose attempts meet their condition,
and after one attempt more exactly if that one meets its condition as well. -/
theorem live_parameters_follow_head {P : Platform} {cfg : EnableEpochs} {n : Node}
    (hs : Steady cfg n) {attempts : List Attempt} (h : AllHold P cfg n attempts) :
    FollowsHead cfg (runAttempts P cfg n attempts) ∧
    ∀ a, Admissible (runAttempts P cfg n attempts) a →
      (FollowsHead cfg (attempt P cfg (runAttempts P cfg n attempts) a) ↔
        HoldsWhen P cfg (runAttempts P cfg n attempts) a) := by
  have hsteady := hs.run h
  exact ⟨hsteady.follows, fun a ha => (hsteady.attempt ha).1⟩

/-! ## Sample nodes -/

/-- A node whose head stores the initial parameters of its epoch is steady. -/
theorem Steady.of_initial {cfg : EnableEpochs} {head : Committed}
    (hstored : head.stored = initialProposalParameters (cfg.epochConfirmed head.epoch)) :
    Steady cfg ⟨head, [], head.tries, ⟨head.epoch, head.epoch⟩, head.stored⟩ := by
  have hcomplete : Complete (cfg.epochConfirmed head.epoch) head.stored := by
    rw [hstored]
    exact fun c hc => hc
  have hwithin : Within (cfg.epochConfirmed head.epoch) head.stored := by
    rw [hstored]
    exact fun c hc => hc
  refine ⟨rfl, ?_, UInt32.le_refl _, UInt32.le_refl _, hcomplete, ?_, pairwise_singleton _ _⟩
  · refine (followsHead_iff (n := ⟨head, [], head.tries, ⟨head.epoch, head.epoch⟩, head.stored⟩)
      (fun c => ?_) hwithin).2 hcomplete
    rw [hstored, Option.or_self]
  · intro c hc
    rw [mem_singleton.1 hc]
    exact hwithin

/-- `KdaFpr` is active from epoch 3 on, the other forks from the start. -/
def sampleEpochs : EnableEpochs := ⟨0, 0, 0, 3, 0, 0, 0, 0, 0, 0, 0, 0, 0, 0, 0, 0, 0⟩

/-- A head that stores the initial parameters of its epoch. -/
def sampleHead (epoch : UInt32) : Committed :=
  ⟨epoch, { sampleVoters with proposals := { ProposalStore.empty with controller :=
    ⟨0, initialProposalParameters (sampleEpochs.epochConfirmed epoch), ∅⟩ } }⟩

def sampleNode (epoch : UInt32) : Node :=
  ⟨sampleHead epoch, [], (sampleHead epoch).tries, ⟨epoch, epoch⟩, (sampleHead epoch).stored⟩

theorem sampleNode_steady (epoch : UInt32) : Steady sampleEpochs (sampleNode epoch) :=
  Steady.of_initial rfl

/-- The start of an epoch is accepted, that of the next one is created and given up, and the head
is rolled back. -/
def sampleAttempts : List Attempt :=
  [.process ⟨1, true, []⟩ none, .create ⟨2, true, []⟩ false, .rollback]

theorem sampleAttempts_allHold : AllHold samplePlatform sampleEpochs
    (sampleNode 0) sampleAttempts := by
  have hforks : sampleEpochs.epochConfirmed 1 = sampleEpochs.epochConfirmed 0 ∧
      sampleEpochs.epochConfirmed 2 = sampleEpochs.epochConfirmed 0 := by decide
  refine ⟨fun _ => .inr ⟨rfl, rfl⟩, fun _ => .inr ?_, .inr ⟨rfl, rfl⟩, ?_, trivial, ?_, trivial⟩
  · rw [hforks.1]
    exact fun c hc => hc
  · change Complete (sampleEpochs.epochConfirmed 2) (sampleHead 0).stored
    rw [hforks.2]
    exact fun c hc => hc
  rintro parent hparent
  cases hparent
  change Complete (sampleEpochs.epochConfirmed 2) (sampleHead 0).stored
  rw [hforks.2]
  exact fun c hc => hc

theorem live_parameters_follow_head_sample :
    FollowsHead sampleEpochs
      (runAttempts samplePlatform sampleEpochs (sampleNode 0) sampleAttempts) :=
  (live_parameters_follow_head (sampleNode_steady 0) sampleAttempts_allHold).1

/-- **The start of epoch 3 adds a parameter.**  If a block of it is created and given up, or
accepted and rolled back, the live set keeps the parameter at a head of epoch 2 that does not know
it.  And while it is the head, no proposal can name the parameter. -/
theorem live_parameters_leave_head :
    Steady sampleEpochs (sampleNode 2) ∧
    ¬ FollowsHead sampleEpochs (runAttempts samplePlatform sampleEpochs (sampleNode 2)
      [.create ⟨3, true, []⟩ false]) ∧
    ¬ FollowsHead sampleEpochs (runAttempts samplePlatform sampleEpochs (sampleNode 2)
      [.process ⟨3, true, []⟩ none, .rollback]) ∧
    ¬ FollowsHead sampleEpochs (runAttempts samplePlatform sampleEpochs (sampleNode 2)
      [.process ⟨3, true, []⟩ none]) := by
  refine ⟨sampleNode_steady 2, fun h => ?_, fun h => ?_, fun h => ?_⟩
  · have hsynced := h.synced EnumParameter.KAppFeeITOTrigger.code
    revert hsynced
    decide +kernel
  · have hsynced := h.synced EnumParameter.KAppFeeITOTrigger.code
    revert hsynced
    decide +kernel
  · have hknown := (knownToCreate_iff.1 (h.known EnumParameter.KAppFeeITOTrigger.code
      (by decide +kernel))).2
    revert hknown
    decide +kernel

end KleverGo.Blocks
