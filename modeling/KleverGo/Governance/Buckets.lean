import KleverGo.Governance.Runs

/-!
# The buckets of active proposals

The controller keeps the identifiers of the active proposals in buckets, by the epoch they end in.

* `Buckets`: the buckets hold exactly the active proposals, each of them once, in the bucket of the
  epoch it ends in.
* `StoreStep.buckets`: **every call keeps them so.**
* `SameTerms`: what neither a vote nor an unfreeze changes.
-/

namespace KleverGo.Governance

open Multiset List FMap Option

/-! ## Identifiers in buckets -/

section
variable {c : ProposalController}

theorem mem_activeProposalIDs {id : Nat} :
    id ∈ activeProposalIDs c ↔
      ∃ epoch ids, c.activeProposals.lookup epoch = some ids ∧ id ∈ ids := by
  unfold activeProposalIDs
  rw [mem_flatMap]
  constructor
  · rintro ⟨⟨epoch, ids⟩, he, hid⟩
    exact ⟨epoch, ids, mem_entries_iff.1 he, hid⟩
  · rintro ⟨epoch, ids, hlookup, hid⟩
    exact ⟨⟨epoch, ids⟩, mem_entries_iff.2 hlookup, hid⟩

theorem coe_activeProposalIDs (c : ProposalController) :
    (activeProposalIDs c : Multiset Nat) =
      c.activeProposals.sumBy fun _ (ids : List Nat) => (ids : Multiset Nat) := by
  unfold activeProposalIDs sumBy
  induction c.activeProposals.entries with
  | nil => rfl
  | cons e rest ih =>
    rw [List.flatMap_cons, List.map_cons, List.sum_cons, ← ih, coe_add]

theorem activeProposalIDs_update (c : ProposalController) (epochEnd : UInt32) :
    (activeProposalIDs (updateActiveProposals c epochEnd)).Perm
      (c.proposalCount :: activeProposalIDs c) := by
  rw [← coe_eq_coe, coe_activeProposalIDs, ← cons_coe, coe_activeProposalIDs]
  have h := sumBy_insert (fun _ (ids : List Nat) => (ids : Multiset Nat)) c.activeProposals epochEnd
    ((c.activeProposals.lookup epochEnd).getD [] ++ [c.proposalCount])
  simp only [updateActiveProposals]
  cases hold : c.activeProposals.lookup epochEnd with
  | none =>
    rw [hold] at h
    simp only [elim_none, add_zero, getD_none, nil_append] at h ⊢
    rw [h, coe_singleton, add_comm, singleton_add]
  | some ids =>
    rw [hold] at h
    simp only [elim_some, getD_some] at h ⊢
    refine add_right_cancel (b := (ids : Multiset Nat)) ?_
    rw [h, cons_add, ← coe_add, coe_singleton, ← add_assoc,
      Multiset.add_comm _ {c.proposalCount}, singleton_add]

theorem activeProposalIDs_erase {epoch : UInt32} {ids : List Nat}
    (h : c.activeProposals.lookup epoch = some ids) (params : Parameters) :
    (activeProposalIDs c).Perm (activeProposalIDs
      { c with activeParameters := params, activeProposals := c.activeProposals.erase epoch } ++
        ids) := by
  rw [← coe_eq_coe, ← coe_add, coe_activeProposalIDs, coe_activeProposalIDs]
  have hsum := sumBy_erase (fun _ (ids : List Nat) => (ids : Multiset Nat)) c.activeProposals epoch
  rw [h, elim_some] at hsum
  exact hsum.symm

theorem scannedIDs_perm (c : ProposalController) : (scannedIDs c).Perm (activeProposalIDs c) := by
  have hsorted := (perm_insertionSort (· ≤ ·) c.activeProposals.keys).flatMap_right
    fun epoch => (c.activeProposals.lookup epoch).getD []
  refine hsorted.trans (Perm.of_eq ?_)
  rw [AList.keys, List.keys, flatMap_map]
  refine flatMap_congr fun e he => ?_
  have hlookup : c.activeProposals.lookup e.1 = some e.2 := mem_entries_iff.1 he
  rw [hlookup, getD_some]

end

/-! ## The invariant -/

/-- The buckets hold exactly the active proposals. -/
structure Buckets (σ : ProposalStore) : Prop where
  nodup : (activeProposalIDs σ.controller).Nodup
  active : ∀ id, id ∈ activeProposalIDs σ.controller ↔
    ∃ p, σ.proposals.lookup id = some p ∧ p.proposalStatus = .ActiveProposal
  ended : ∀ epoch ids, σ.controller.activeProposals.lookup epoch = some ids → ∀ id ∈ ids,
    ∀ p, σ.proposals.lookup id = some p → p.epochEnd = epoch
  counted : ∀ id p, σ.proposals.lookup id = some p → id ≤ σ.controller.proposalCount

structure Unused (σ : ProposalStore) : Prop where
  proposals : σ.proposals = ∅
  activeProposals : σ.controller.activeProposals = ∅
  votes : σ.votes = ∅
  preForkVotes : σ.preForkVotes = none

theorem Unused.buckets {σ : ProposalStore} (h : Unused σ) : Buckets σ := by
  have hids : activeProposalIDs σ.controller = [] := by
    unfold activeProposalIDs
    rw [h.activeProposals]
    rfl
  refine ⟨?_, fun id => ?_, ?_, ?_⟩
  · rw [hids]
    exact nodup_nil
  · rw [hids, h.proposals]
    simp
  · intro epoch ids hids
    rw [h.activeProposals, AList.lookup_empty] at hids
    cases hids
  · intro id p hp
    rw [h.proposals, AList.lookup_empty] at hp
    cases hp

/-! ## Votes and unfreezes -/

variable (p : ProposalData)

/-- The proposal without its ballots. -/
def terms : ProposalData := { p with votes := ∅, voters := ∅, totalStaked := 0 }

/-- Nothing of the controller and of the proposals changes but ballots. -/
structure SameTerms (σ σ' : ProposalStore) : Prop where
  controller : σ'.controller = σ.controller
  terms : ∀ id, (σ'.proposals.lookup id).map terms = (σ.proposals.lookup id).map terms

namespace SameTerms

variable {σ σ1 σ2 : ProposalStore}

theorem refl (σ : ProposalStore) : SameTerms σ σ := ⟨rfl, fun _ => rfl⟩

theorem trans (h1 : SameTerms σ σ1) (h2 : SameTerms σ1 σ2) : SameTerms σ σ2 :=
  ⟨h2.controller.trans h1.controller, fun id => (h2.terms id).trans (h1.terms id)⟩

theorem of_setProposal {id : Nat} {p p' : ProposalData} (hp : σ.proposals.lookup id = some p)
    (h : Governance.terms p' = Governance.terms p) : SameTerms σ (setProposal σ id p') := by
  refine ⟨rfl, fun id' => ?_⟩
  simp only [setProposal, lookup_insert_eq]
  split
  · rename_i heq
    rw [heq, hp, map_some, map_some, h]
  · rfl

theorem lookup (h : SameTerms σ σ1) {id : Nat} {p : ProposalData}
    (hp : σ1.proposals.lookup id = some p) :
    ∃ q, σ.proposals.lookup id = some q ∧ Governance.terms q = Governance.terms p := by
  have hid := h.terms id
  rw [hp, map_some] at hid
  exact map_eq_some_iff.1 hid.symm

theorem symm (h : SameTerms σ σ1) : SameTerms σ1 σ :=
  ⟨h.controller.symm, fun id => (h.terms id).symm⟩

theorem buckets (h : SameTerms σ σ1) (hb : Buckets σ) : Buckets σ1 := by
  refine ⟨?_, fun id => ?_, fun epoch ids hids id hid p hp => ?_, fun id p hp => ?_⟩
  · rw [h.controller]
    exact hb.nodup
  · rw [h.controller, hb.active]
    constructor
    · rintro ⟨p, hp, hactive⟩
      obtain ⟨q, hq, hterms⟩ := h.symm.lookup hp
      exact ⟨q, hq, (congrArg (·.proposalStatus) hterms).trans hactive⟩
    · rintro ⟨p, hp, hactive⟩
      obtain ⟨q, hq, hterms⟩ := h.lookup hp
      exact ⟨q, hq, (congrArg (·.proposalStatus) hterms).trans hactive⟩
  · rw [h.controller] at hids
    obtain ⟨q, hq, hterms⟩ := h.lookup hp
    rw [← hb.ended epoch ids hids id hid q hq]
    exact congrArg (·.epochEnd) hterms.symm
  · rw [h.controller]
    obtain ⟨q, hq, -⟩ := h.lookup hp
    exact hb.counted id q hq

end SameTerms

theorem castVote_terms (addr : Bytes) (type : VoteType) (amount timestamp totalStaked : Int64) :
    terms (castVote p addr type amount timestamp totalStaked) = terms p := by
  change terms (processExistingVote p addr type).1 = terms p
  unfold processExistingVote
  split
  · rfl
  · split <;> rfl

section
variable {fc : ForkController} {update : ProposalVoteUpdate} {σ σ' : ProposalStore}

theorem setAccountProposalVotes_spec {addr : Bytes} {entries : List ProposalVoteIndexEntry}
    (h : setAccountProposalVotes σ addr entries = .ok σ') :
    (∀ entry ∈ entries, 0 < entry.amount) ∧
      σ' = { σ with votes :=
        if entries = [] then σ.votes.erase addr else σ.votes.insert addr entries } := by
  simp only [setAccountProposalVotes, bind_eq_ok, reject_eq_ok, pure_eq_ok] at h
  obtain ⟨_, hpos, rfl⟩ := h
  refine ⟨fun entry hentry => Int64.not_le.1 fun hle => hpos ⟨entry, hentry, hle⟩, rfl⟩

theorem indexVote_frame {addr : Bytes} {id : Nat} {amount : Int64}
    (h : indexVote fc σ addr id amount = .ok σ') : ∃ votes, σ' = { σ with votes := votes } := by
  unfold indexVote at h
  split at h
  · unfold addVoterToIndex at h
    simp only at h
    split at h
    · cases h
      exact ⟨σ.votes, rfl⟩
    · exact ⟨_, (setAccountProposalVotes_spec h).2⟩
  · cases h
    exact ⟨σ.votes, rfl⟩

/-- The index of the votes is not changed either. -/
structure SameIndex (σ σ' : ProposalStore) : Prop extends SameTerms σ σ' where
  votes : σ'.votes = σ.votes
  preForkVotes : σ'.preForkVotes = σ.preForkVotes

theorem SameIndex.refl (σ : ProposalStore) : SameIndex σ σ := ⟨.refl σ, rfl, rfl⟩

/-- A vote on the proposal is the only thing that a shrink changes. -/
theorem shrinkVoteIfUncovered_terms {p : ProposalData} {id : Nat} {left : Option VoteDetail}
    (hp : σ.proposals.lookup id = some p)
    (h : shrinkVoteIfUncovered fc update σ p id = .ok (σ', left)) : SameIndex σ σ' := by
  unfold shrinkVoteIfUncovered at h
  split at h
  · cases h
    exact .refl σ
  rename_i voter hvoter
  split at h
  · simp only [bind_eq_ok, pure_eq_ok] at h
    obtain ⟨p', hp', heq⟩ := h
    cases heq
    refine ⟨.of_setProposal hp ?_, rfl, rfl⟩
    have hvoted : terms (updateVoterAndProposal update voter p) = terms p := by
      unfold updateVoterAndProposal
      split <;> rfl
    unfold updateProposalTotalStaked at hp'
    split at hp'
    · cases hp'
      exact hvoted
    · simp only [bind_eq_ok, pure_eq_ok] at hp'
      obtain ⟨_, -, rfl⟩ := hp'
      exact hvoted
  · cases h
    exact .refl σ

theorem scanActiveProposals_terms {skip : List Nat} {idBound : Option Nat}
    (h : scanActiveProposals fc update σ skip idBound = .ok σ') : SameIndex σ σ' := by
  refine foldlM_invariant (P := SameIndex σ) ?_ (.refl σ) h
  rintro σ1 id σ2 ⟨hterms, hvotes, hbound⟩ hstep
  unfold scanStep at hstep
  split at hstep
  · cases hstep
    exact ⟨hterms, hvotes, hbound⟩
  · simp only [bind_eq_ok, pure_eq_ok, getProposalData, orError_eq_ok] at hstep
    obtain ⟨p, hp, ⟨σ3, left⟩, hshrink, rfl⟩ := hstep
    obtain ⟨hterms', hvotes', hbound'⟩ := shrinkVoteIfUncovered_terms hp hshrink
    exact ⟨hterms.trans hterms', hvotes'.trans hvotes, hbound'.trans hbound⟩

theorem indexStep_terms {activeIDs : List Nat}
    {acc acc' : ProposalStore × List Nat × List ProposalVoteIndexEntry}
    {entry : ProposalVoteIndexEntry} (h : indexStep fc update activeIDs acc entry = .ok acc') :
    SameIndex acc.1 acc'.1 := by
  unfold indexStep at h
  split at h
  · cases h
    exact .refl _
  simp only [bind_eq_ok, pure_eq_ok] at h
  obtain ⟨⟨σ1, rebuilt⟩, hrebuilt, rfl⟩ := h
  unfold rebuildIndexEntry at hrebuilt
  split at hrebuilt
  · cases hrebuilt
    exact .refl _
  split at hrebuilt
  · cases hrebuilt
    exact .refl _
  split at hrebuilt
  · cases hrebuilt
    exact .refl _
  rename_i p hp
  simp only [bind_eq_ok, pure_eq_ok] at hrebuilt
  obtain ⟨⟨σ2, left⟩, hshrink, heq⟩ := hrebuilt
  cases heq
  exact shrinkVoteIfUncovered_terms hp hshrink

theorem preForkVoteIDBound_eq (σ : ProposalStore) :
    preForkVoteIDBound σ = (σ.preForkVotes.getD σ.controller.proposalCount,
      { σ with preForkVotes := some (σ.preForkVotes.getD σ.controller.proposalCount) }) := by
  obtain ⟨controller, proposals, votes, preForkVotes⟩ := σ
  cases preForkVotes <;> rfl

theorem updateVotes_terms (h : updateVotes fc update σ = .ok σ') : SameTerms σ σ' := by
  unfold updateVotes at h
  split at h
  · simp only [processIndexedProposalVotes, bind_eq_ok] at h
    obtain ⟨⟨σ1, skip, kept⟩, hindex, σ2, hwrite, hscan⟩ := h
    have h1 : SameTerms σ σ1 := by
      refine foldlM_invariant (P := fun acc => SameTerms σ acc.1) ?_ (.refl σ) hindex
      intro acc entry acc' hacc hstep
      exact hacc.trans (indexStep_terms hstep).toSameTerms
    have h2 : SameTerms σ1 σ2 := by
      unfold writeIndex at hwrite
      split at hwrite
      · cases hwrite
        exact .refl _
      · rw [(setAccountProposalVotes_spec hwrite).2]
        exact ⟨rfl, fun _ => rfl⟩
    rw [preForkVoteIDBound_eq] at hscan
    have h3 := scanActiveProposals_terms hscan
    exact (h1.trans h2).trans ⟨h3.controller, h3.terms⟩
  · exact (scanActiveProposals_terms h).toSameTerms

end

/-! ## Settlement -/

/-- What a settlement does to a proposal: it is no longer active, and keeps its ballots. -/
def Settled (p p' : ProposalData) : Prop :=
  p'.proposalStatus ≠ .ActiveProposal ∧
    p' = { p with proposalStatus := p'.proposalStatus, totalStaked := p'.totalStaked }

section
variable {fc : ForkController} {kfi : StakingData} {σ σ' : ProposalStore}
  {params params' : Parameters}

theorem Settled.trans {p p1 p2 : ProposalData} (h1 : Settled p p1) (h2 : Settled p1 p2) :
    Settled p p2 := by
  refine ⟨h2.1, ?_⟩
  rw [h2.2, h1.2]

theorem processSingleProposal_settled {id : Nat} {p' : ProposalData}
    (h : processSingleProposal fc kfi σ params id = .ok (params', p')) :
    ∃ p, σ.proposals.lookup id = some p ∧ Settled p p' := by
  simp only [processSingleProposal, bind_eq_ok, orError_eq_ok] at h
  obtain ⟨p, hp, h⟩ := h
  refine ⟨p, hp, ?_⟩
  split at h
  · cases h
    refine ⟨?_, rfl⟩
    simp only [determineProposalStatus]
    split <;> simp
  rename_i happroved
  rw [not_not] at happroved
  unfold applyApproved at h
  split at h
  · cases h
    exact ⟨by simp, rfl⟩
  simp only [bind_eq_ok, pure_eq_ok] at h
  obtain ⟨_, -, heq⟩ := h
  cases heq
  refine ⟨?_, rfl⟩
  rw [happroved]
  simp

theorem settleSteps_spec {ids : List Nat} {acc : ProposalStore × Parameters}
    (h : ids.foldlM (settleStep fc kfi) (σ, params) = .ok acc) :
    acc.1 = { σ with proposals := acc.1.proposals } ∧
    (∀ id, id ∉ ids → acc.1.proposals.lookup id = σ.proposals.lookup id) ∧
    ∀ id ∈ ids, ∃ p p', σ.proposals.lookup id = some p ∧ acc.1.proposals.lookup id = some p' ∧
      Settled p p' := by
  induction ids generalizing σ params with
  | nil =>
    cases h
    exact ⟨rfl, fun _ _ => rfl, by simp⟩
  | cons id rest ih =>
    simp only [foldlM_cons, settleStep, bind_eq_ok, pure_eq_ok] at h
    obtain ⟨_, ⟨⟨params1, p1⟩, hp1, rfl⟩, hrest⟩ := h
    obtain ⟨p, hp, hsettled⟩ := processSingleProposal_settled hp1
    obtain ⟨hframe, hother, hmem⟩ := ih hrest
    have hset : ∀ id', (setProposal σ id p1).proposals.lookup id' =
        if id' = id then some p1 else σ.proposals.lookup id' :=
      fun id' => lookup_insert_eq _ _ _ _
    refine ⟨hframe, fun id' hid' => ?_, fun id' hid' => ?_⟩
    · rw [List.mem_cons, not_or] at hid'
      rw [hother id' hid'.2, hset, if_neg hid'.1]
    by_cases hin : id' ∈ rest
    · obtain ⟨q, q', hq, hq', hqs⟩ := hmem id' hin
      rw [hset] at hq
      split at hq
      · rename_i heq
        cases hq
        exact ⟨p, q', heq ▸ hp, hq', hsettled.trans hqs⟩
      · exact ⟨q, q', hq, hq', hqs⟩
    · have heq : id' = id := (mem_cons.1 hid').resolve_right hin
      refine ⟨p, p1, heq ▸ hp, ?_, hsettled⟩
      rw [hother id' hin, hset, if_pos heq]

/-- A settlement removes the bucket, and settles its proposals and no other. -/
theorem settleBucket_spec {epoch : UInt32} {live live' : Parameters} {ids : List Nat}
    {c : ProposalController} (h : settleBucket fc kfi epoch σ live c ids = .ok (σ', live')) :
    (∃ params', σ'.controller =
      { c with activeParameters := params', activeProposals := c.activeProposals.erase epoch }) ∧
    σ'.votes = σ.votes ∧ σ'.preForkVotes = σ.preForkVotes ∧
    (∀ id, id ∉ ids → σ'.proposals.lookup id = σ.proposals.lookup id) ∧
    ∀ id ∈ ids, ∃ p p', σ.proposals.lookup id = some p ∧ σ'.proposals.lookup id = some p' ∧
      Settled p p' := by
  simp only [settleBucket, bind_eq_ok, pure_eq_ok] at h
  obtain ⟨⟨σ1, params1⟩, hsteps, heq⟩ := h
  cases heq
  obtain ⟨hframe, hother, hmem⟩ := settleSteps_spec hsteps
  refine ⟨⟨params1, rfl⟩, ?_, ?_, hother, hmem⟩
  · rw [hframe]
  · rw [hframe]

end

/-! ## Every call -/

section
variable {fc : ForkController} {σ σ' : ProposalStore}

theorem finalizeProposal_eq (fc : ForkController) (ctx : KappContext) (σ : ProposalStore)
    (staking : StakingData) (tc : ProposalContract) (sender : Bytes) :
    finalizeProposal fc ctx σ staking tc sender =
      { controller := updateActiveProposals
          { σ.controller with proposalCount := σ.controller.proposalCount + 1 }
          (ctx.epoch + tc.epochsDuration)
        proposals := σ.proposals.insert (σ.controller.proposalCount + 1)
          (newProposal ctx staking.totalStaked tc sender)
        votes := σ.votes
        preForkVotes :=
          if fc.fixAuditChangesV5 then some (σ.preForkVotes.getD σ.controller.proposalCount)
          else σ.preForkVotes } := by
  unfold finalizeProposal
  rw [preForkVoteIDBound_eq]
  split <;> rfl

theorem finalizeProposal_buckets (ctx : KappContext) (staking : StakingData) (tc : ProposalContract)
    (sender : Bytes) (h : Buckets σ) :
    Buckets (finalizeProposal fc ctx σ staking tc sender) := by
  rw [finalizeProposal_eq]
  have hperm := activeProposalIDs_update
    { σ.controller with proposalCount := σ.controller.proposalCount + 1 }
    (ctx.epoch + tc.epochsDuration)
  have hfresh : σ.proposals.lookup (σ.controller.proposalCount + 1) = none := by
    cases hp : σ.proposals.lookup (σ.controller.proposalCount + 1) with
    | none => rfl
    | some p =>
      have := h.counted _ p hp
      omega
  have hunused : σ.controller.proposalCount + 1 ∉ activeProposalIDs σ.controller := by
    rw [h.active]
    rintro ⟨p, hp, -⟩
    rw [hfresh] at hp
    cases hp
  refine ⟨?_, fun id => ?_, fun epoch ids hids id hid p hp => ?_, fun id p hp => ?_⟩
  · exact hperm.nodup_iff.2 (nodup_cons.2 ⟨hunused, h.nodup⟩)
  · rw [hperm.mem_iff, List.mem_cons, lookup_insert_eq]
    change id = σ.controller.proposalCount + 1 ∨ id ∈ activeProposalIDs σ.controller ↔ _
    split
    · rename_i heq
      simp [heq, newProposal]
    · rename_i hne
      rw [h.active]
      simp [hne]
  · rw [lookup_insert_eq] at hp
    simp only [updateActiveProposals, lookup_insert_eq] at hids
    split at hids
    · rename_i hepoch
      cases hids
      split at hp
      · cases hp
        exact hepoch.symm
      rename_i hne
      rw [List.mem_append, List.mem_singleton] at hid
      obtain ⟨old, hold⟩ : ∃ old, σ.controller.activeProposals.lookup epoch = some old ∧ id ∈ old := by
        cases hl : σ.controller.activeProposals.lookup (ctx.epoch + tc.epochsDuration) with
        | none =>
          rw [hl] at hid
          simp [hne] at hid
        | some old =>
          rw [hl] at hid
          exact ⟨old, hepoch ▸ hl, hid.resolve_right hne⟩
      exact h.ended epoch old hold.1 id hold.2 p hp
    · split at hp
      · rename_i heq
        subst heq
        exact absurd (mem_activeProposalIDs.2 ⟨epoch, ids, hids, hid⟩) hunused
      · exact h.ended epoch ids hids id hid p hp
  · rw [lookup_insert_eq] at hp
    change id ≤ σ.controller.proposalCount + 1
    split at hp
    · omega
    · have := h.counted id p hp
      omega

theorem settleBucket_buckets {kfi : StakingData} {epoch : UInt32} {live live' : Parameters}
    {ids : List Nat} (h : Buckets σ) (hids : σ.controller.activeProposals.lookup epoch = some ids)
    (hsettle : settleBucket fc kfi epoch σ live (mergeInitialParameters fc σ.controller).1 ids =
      .ok (σ', live')) : Buckets σ' := by
  obtain ⟨⟨params, hcontroller⟩, -, -, hother, hmem⟩ := settleBucket_spec hsettle
  rw [mergeInitialParameters_proposalCount, mergeInitialParameters_activeProposals] at hcontroller
  have hperm := activeProposalIDs_erase hids params
  rw [← hcontroller] at hperm
  have hnodup := hperm.nodup_iff.1 h.nodup
  rw [nodup_append] at hnodup
  -- a proposal of the store after the settlement was there before, with the same end
  have hback : ∀ id p', σ'.proposals.lookup id = some p' →
      ∃ p, σ.proposals.lookup id = some p ∧ p.epochEnd = p'.epochEnd := by
    intro id p' hp'
    by_cases hin : id ∈ ids
    · obtain ⟨p, q, hp, hq, hsettled⟩ := hmem id hin
      rw [hq] at hp'
      cases hp'
      exact ⟨p, hp, (congrArg (·.epochEnd) hsettled.2).symm⟩
    · rw [hother id hin] at hp'
      exact ⟨p', hp', rfl⟩
  refine ⟨hnodup.1, fun id => ?_, fun epoch' ids' hids' id hid p hp => ?_, fun id p hp => ?_⟩
  · by_cases hin : id ∈ ids
    · obtain ⟨p, q, hp, hq, hsettled⟩ := hmem id hin
      constructor
      · intro hactive
        exact absurd rfl (hnodup.2.2 id hactive id hin)
      · rintro ⟨p', hp', hactive⟩
        rw [hq] at hp'
        cases hp'
        exact absurd hactive hsettled.1
    · rw [hother id hin, ← h.active, hperm.mem_iff, mem_append]
      simp [hin]
  · rw [hcontroller, lookup_erase_eq] at hids'
    split at hids'
    · cases hids'
    · obtain ⟨q, hq, hend⟩ := hback id p hp
      rw [← hend]
      exact h.ended epoch' ids' hids' id hid q hq
  · obtain ⟨q, hq, -⟩ := hback id p hp
    rw [hcontroller]
    exact h.counted id q hq

theorem indexVote_terms {id : Nat} {p p' : ProposalData} {addr : Bytes} {amount : Int64}
    (hp : σ.proposals.lookup id = some p) (hterms : terms p' = terms p)
    (h : indexVote fc (setProposal σ id p') addr id amount = .ok σ') : SameTerms σ σ' := by
  obtain ⟨votes, rfl⟩ := indexVote_frame h
  have hset := SameTerms.of_setProposal hp hterms
  exact ⟨hset.controller, hset.terms⟩

theorem StoreStep.buckets (hstep : StoreStep fc σ σ') (h : Buckets σ) : Buckets σ' := by
  cases hstep with
  | kept => exact h
  | created ctx staking tc sender => exact finalizeProposal_buckets ctx staking tc sender h
  | voted hstored hactive hpos hindex =>
    exact (indexVote_terms hstored (castVote_terms _ _ _ _ _ _) hindex).buckets h
  | unfrozen hstaked hupdate => exact (updateVotes_terms hupdate).buckets h
  | settled hids hsettle => exact settleBucket_buckets h hids hsettle

end

end KleverGo.Governance
