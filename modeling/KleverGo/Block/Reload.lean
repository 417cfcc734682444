import KleverGo.Block.Model
import KleverGo.Governance.Verdict

/-!
# Parameters that forks add

A fork adds parameters to the initial set.  The trie gets them with the first settlement after the
fork; until then the live set has them and the trie does not, so that no proposal can name them,
and a reload fills in those of the forks whose flags happen to be set.

* `Complete`: the stored map has every parameter of the forks; `Within`: it has no other.
* `followsHead_iff`: a live set that is filled in for the forks of the head follows it if nothing
  had to be filled in.
* `reload_followsHead`: a reload follows the head if every parameter of the flags is stored there.
-/

namespace KleverGo.Blocks

open Governance Option

/-! ## Parameters and forks -/

/-- Every parameter of the forks is stored. -/
def Complete (fc : ForkController) (stored : Parameters) : Prop :=
  ∀ c, (initialProposalParameters fc).lookup c ≠ none → stored.lookup c ≠ none

/-- Only parameters of the forks are stored. -/
def Within (fc : ForkController) (stored : Parameters) : Prop :=
  ∀ c, stored.lookup c ≠ none → (initialProposalParameters fc).lookup c ≠ none

variable {e e' : UInt32} {c : Int32}

theorem initialProposalParameters_mono {cfg : EnableEpochs} (h : e ≤ e')
    (hc : (initialProposalParameters (cfg.epochConfirmed e)).lookup c ≠ none) :
    (initialProposalParameters (cfg.epochConfirmed e')).lookup c ≠ none := by
  rw [initialProposalParameters_ne_none] at hc ⊢
  obtain ⟨row, hrow, rfl⟩ := hc
  refine ⟨row, ?_, rfl⟩
  have hle : ∀ {a : UInt32}, a ≤ e → a ≤ e' := fun ha => UInt32.le_trans ha h
  simp only [initialRows, EnableEpochs.epochConfirmed, List.mem_append, decide_eq_true_eq] at hrow ⊢
  rcases hrow with ((hrow | hrow) | hrow) | hrow
  · exact .inl (.inl (.inl hrow))
  all_goals
    split at hrow
    · rename_i hfork
      simp [hle hfork, hrow]
    · cases hrow

variable {stored : Parameters}

theorem Complete.of_le {cfg : EnableEpochs} (hle : e ≤ e')
    (h : Complete (cfg.epochConfirmed e') stored) : Complete (cfg.epochConfirmed e) stored :=
  fun c hc => h c (initialProposalParameters_mono hle hc)

theorem Within.of_le {cfg : EnableEpochs} (hle : e ≤ e')
    (h : Within (cfg.epochConfirmed e) stored) : Within (cfg.epochConfirmed e') stored :=
  fun c hc => initialProposalParameters_mono hle (h c hc)

/-- A map with the parameters of the forks only, and no fewer of them, has all of them. -/
theorem Within.complete {fc : ForkController} (h : Within fc stored)
    (hlength : (initialProposalParameters fc).entries.length ≤ stored.entries.length) :
    Complete fc stored := by
  have hkeys : stored.keys ⊆ (initialProposalParameters fc).keys := by
    intro c hc
    by_contra hnot
    exact h c (fun hnone => AList.lookup_eq_none.1 hnone hc) (AList.lookup_eq_none.2 hnot)
  have hperm := (List.subperm_of_subset stored.keys_nodup hkeys).perm_of_length_le
    (by simpa [AList.keys, List.keys] using hlength)
  intro c hc hnone
  refine AList.lookup_eq_none.1 hnone ?_
  rw [AList.mem_keys, hperm.mem_iff, ← AList.mem_keys]
  by_contra hnot
  exact hc (AList.lookup_eq_none.2 hnot)

/-- What a merge with the initial parameters gives. -/
def merged (fc : ForkController) (controller : ProposalController) : Parameters :=
  (mergeInitialParameters fc controller).1.activeParameters

section
variable {fc : ForkController} {controller : ProposalController}

theorem merged_of_complete (h : Complete fc controller.activeParameters) (c : Int32) :
    (merged fc controller).lookup c = controller.activeParameters.lookup c := by
  unfold merged mergeInitialParameters
  split
  · rfl
  rw [lookup_mergedParameters]
  cases hc : controller.activeParameters.lookup c with
  | some q => rfl
  | none =>
    rw [none_or]
    by_contra hnot
    exact h c hnot hc

theorem merged_of_within (h : Within fc controller.activeParameters) (c : Int32) :
    (merged fc controller).lookup c = (controller.activeParameters.lookup c).or
      ((initialProposalParameters fc).lookup c) := by
  unfold merged mergeInitialParameters
  split
  · rename_i hlength
    cases hc : controller.activeParameters.lookup c with
    | some q => rfl
    | none =>
      rw [none_or]
      by_contra hnot
      exact h.complete hlength c (Ne.symm hnot) hc
  · exact lookup_mergedParameters fc _ c

end

theorem knownToCreate_iff :
    KnownToCreate stored c ↔ EnumParameter.ofCode c ≠ none ∧ stored.lookup c ≠ none := by
  refine and_congr_right fun _ => ⟨fun h hnone => ?_, fun h value => ?_⟩
  · refine h [] ?_
    rw [Parameters.parseParam, hnone]
    rfl
  · obtain ⟨q, hq⟩ := ne_none_iff_exists'.1 h
    rw [Parameters.parseParam, hq]
    exact parsers_known q.type value

theorem row_known {row : EnumParameter × EnumType × Nat}
    (h : row ∈ baseParameters ++ kdaFprParameters ++ smartContractParameters ++ auditParameters) :
    EnumParameter.ofCode row.1.code = some row.1 := by
  have hrow := rows_acceptable row h
  unfold rowAcceptable at hrow
  split at hrow
  · exact (of_decide_eq_true hrow).1
  · cases hrow

/-! ## Following the head -/

section
variable {cfg : EnableEpochs} {n : Node}

/-- A live set filled in for the forks of the head follows it if nothing had to be filled in. -/
theorem followsHead_iff (hlive : ∀ c, n.live.lookup c = (n.head.stored.lookup c).or
      ((initialProposalParameters (cfg.epochConfirmed n.head.epoch)).lookup c))
    (hwithin : Within (cfg.epochConfirmed n.head.epoch) n.head.stored) :
    FollowsHead cfg n ↔ Complete (cfg.epochConfirmed n.head.epoch) n.head.stored := by
  constructor
  · intro h c hc hnone
    have hne : n.live.lookup c ≠ none := by rw [hlive, hnone, none_or]; exact hc
    exact (knownToCreate_iff.1 (h.known c hne)).2 hnone
  intro h
  refine ⟨hlive, fun c hc => knownToCreate_iff.2 ?_⟩
  have hstored : n.head.stored.lookup c ≠ none := by
    intro hnone
    rw [hlive, hnone, none_or] at hc
    exact h c hc hnone
  obtain ⟨row, hrow, rfl⟩ := initialProposalParameters_ne_none.1 (hwithin c hstored)
  exact ⟨by rw [row_known (mem_initialRows hrow)]; exact some_ne_none _, hstored⟩

theorem commit_followsHead_iff {blk : Block}
    (hlive : ∀ c, n.live.lookup c = (n.working.proposals.controller.activeParameters.lookup c).or
      ((initialProposalParameters (cfg.epochConfirmed blk.epoch)).lookup c))
    (hwithin : Within (cfg.epochConfirmed blk.epoch)
      n.working.proposals.controller.activeParameters) :
    FollowsHead cfg (commitBlock n blk) ↔ Complete (cfg.epochConfirmed blk.epoch)
      n.working.proposals.controller.activeParameters :=
  followsHead_iff (n := commitBlock n blk) hlive hwithin

/-- The live set of a node that follows the head is what is stored there. -/
theorem FollowsHead.live_eq (h : FollowsHead cfg n) (c : Int32) :
    n.live.lookup c = n.head.stored.lookup c := by
  rw [h.synced]
  cases hc : n.head.stored.lookup c with
  | some q => rfl
  | none =>
    rw [none_or]
    by_contra hnot
    have hlive := h.synced c
    rw [hc, none_or] at hlive
    exact (knownToCreate_iff.1 (h.known c (by rw [hlive]; exact hnot))).2 hc

/-- **A reload** follows the head if every parameter of the flags is stored there. -/
theorem reload_followsHead {conf : UInt32} (hle : n.head.epoch ≤ conf)
    (hwithin : Within (cfg.epochConfirmed n.head.epoch) n.head.stored)
    (hlive : ∀ c, n.live.lookup c =
      (merged (cfg.epochConfirmed conf) n.head.tries.proposals.controller).lookup c) :
    FollowsHead cfg n ↔ Complete (cfg.epochConfirmed conf) n.head.stored := by
  constructor
  · intro h c hc hnone
    have hmerged := hlive c
    rw [h.live_eq, merged_of_within (hwithin.of_le hle), hnone] at hmerged
    rw [show n.head.tries.proposals.controller.activeParameters.lookup c = none from hnone,
      none_or] at hmerged
    exact hc hmerged.symm
  · intro h
    refine (followsHead_iff (fun c => ?_) hwithin).2 (h.of_le hle)
    rw [hlive, merged_of_complete h]
    cases hc : n.head.stored.lookup c with
    | some q => exact hc
    | none =>
      rw [none_or]
      refine hc.trans (Eq.symm ?_)
      by_contra hnot
      exact h.of_le hle c hnot hc

end

end KleverGo.Blocks
