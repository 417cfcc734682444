import KleverGo.Governance.Verdict
import KleverGo.Governance.Votes

/-!
# The life of a proposal

Runs in which epochs start once each and in order.

* `Timely`: a proposal is active until its last epoch starts; `Timely.attempt` keeps it so.
* `KeepsVerdicts`, `SettlesEpoch`: what a call does to a verdict, and what the start of an epoch
  does.
* `governance_settlement`: every proposal is settled once, when its last epoch starts.
-/

namespace KleverGo.Governance

open Staking

/-! ## Epochs in order -/

def nextEpoch (epoch : UInt32) (tx : GovTx) : UInt32 :=
  match tx.call with
  | .settle => tx.ctx.epoch
  | _ => epoch

/-- A call of the current epoch, or the start of the next one.  The last epoch of a new proposal
fits in its field. -/
def OnTime (epoch : UInt32) (tx : GovTx) : Prop :=
  match tx.call with
  | .settle => tx.ctx.epoch.toNat = epoch.toNat + 1
  | .create tc => tx.ctx.epoch = epoch ∧ epoch.toNat + tc.epochsDuration.toNat < 2 ^ 32
  | _ => tx.ctx.epoch = epoch

/-- Calls in which epochs start once each and in order, from the given one on. -/
def InOrder : UInt32 → List GovTx → Prop
  | _, [] => True
  | epoch, tx :: rest => OnTime epoch tx ∧ InOrder (nextEpoch epoch tx) rest

def epochAfter (epoch : UInt32) (txs : List GovTx) : UInt32 := txs.foldl nextEpoch epoch

theorem OnTime.epoch_le {epoch : UInt32} {tx : GovTx} (h : OnTime epoch tx) :
    tx.ctx.epoch = nextEpoch epoch tx ∧ epoch.toNat ≤ (nextEpoch epoch tx).toNat := by
  unfold OnTime at h
  unfold nextEpoch
  cases hcall : tx.call <;> simp only [hcall] at h ⊢
  case settle => exact ⟨trivial, by omega⟩
  case create => exact ⟨h.1, Nat.le_refl _⟩
  all_goals exact ⟨h, Nat.le_refl _⟩

theorem InOrder.epoch_le {txs : List GovTx} {epoch : UInt32} (h : InOrder epoch txs) :
    epoch.toNat ≤ (epochAfter epoch txs).toNat ∧
      ∀ tx ∈ txs, tx.ctx.epoch.toNat ≤ (epochAfter epoch txs).toNat := by
  induction txs generalizing epoch with
  | nil => exact ⟨Nat.le_refl _, fun tx htx => absurd htx List.not_mem_nil⟩
  | cons tx rest ih =>
    obtain ⟨heq, hle⟩ := h.1.epoch_le
    obtain ⟨hrest, hall⟩ := ih h.2
    refine ⟨Nat.le_trans hle hrest, fun t ht => ?_⟩
    rcases List.mem_cons.1 ht with rfl | ht
    · rw [heq]
      exact hrest
    · exact hall t ht

/-- Between two calls: the buckets hold the active proposals, which are those whose last epoch has
not started, and the records a settlement reads are there. -/
structure Timely (epoch : UInt32) (s : Chain) : Prop where
  buckets : Buckets s.proposals
  native : ∀ x, x = KLVIdentifier ∨ x = KFIIdentifier → s.staking.lookup x ≠ none
  active : ∀ id p, s.proposals.proposals.lookup id = some p →
    (p.proposalStatus = .ActiveProposal ↔ epoch < p.epochEnd)

section
variable {P : Platform} {s s' : Chain} {epoch : UInt32} {tx : GovTx}

/-- What a call other than a settlement does to the verdicts and to the parameters: nothing, and a
proposal it creates is active. -/
structure KeepsVerdicts (fc : ForkController) (epoch : UInt32) (σ σ' : ProposalStore) : Prop where
  stored : ∀ id p, σ.proposals.lookup id = some p → ∃ p', σ'.proposals.lookup id = some p' ∧
    p'.proposalStatus = p.proposalStatus ∧ p'.epochEnd = p.epochEnd
  created : ∀ id p', σ.proposals.lookup id = none → σ'.proposals.lookup id = some p' →
    p'.proposalStatus = .ActiveProposal ∧ epoch < p'.epochEnd
  parameters : inForce fc σ' = inForce fc σ

variable {fc : ForkController} {σ : ProposalStore}

theorem SameTerms.keepsVerdicts {σ' : ProposalStore} (h : SameTerms σ σ') :
    KeepsVerdicts fc epoch σ σ' where
  stored id p hp := by
    obtain ⟨p', hp', hterms⟩ := h.symm.lookup hp
    exact ⟨p', hp', congrArg (·.proposalStatus) hterms, congrArg (·.epochEnd) hterms⟩
  created id p' hnone hp' := by
    obtain ⟨p, hp, -⟩ := h.lookup hp'
    rw [hnone] at hp
    cases hp
  parameters := inForce_congr fc (by rw [h.controller])

/-- A new proposal is open until an epoch after the current one. -/
theorem finalizeProposal_keepsVerdicts {ctx : KappContext} {staking : StakingData}
    {tc : ProposalContract} {sender : Bytes} (hb : Buckets σ) (hduration : tc.epochsDuration ≠ 0)
    (hfits : ctx.epoch.toNat + tc.epochsDuration.toNat < 2 ^ 32) :
    KeepsVerdicts fc ctx.epoch σ (finalizeProposal fc ctx σ staking tc sender) := by
  rw [finalizeProposal_eq]
  refine ⟨fun id p hp => ⟨p, ?_, rfl, rfl⟩, fun id p' hnone hp' => ?_, inForce_congr fc rfl⟩
  · have hcount := hb.counted id p hp
    rw [FMap.lookup_insert_eq, if_neg (by omega), hp]
  rw [FMap.lookup_insert_eq] at hp'
  split at hp'
  · cases hp'
    refine ⟨rfl, ?_⟩
    rw [newProposal, UInt32.lt_iff_toNat_lt, UInt32.toNat_add]
    have hpos : 0 < tc.epochsDuration.toNat :=
      UInt32.lt_iff_toNat_lt.1 (UInt32.pos_iff_ne_zero.2 hduration)
    rw [Nat.mod_eq_of_lt hfits]
    omega
  · rw [hnone] at hp'
    cases hp'

theorem execGov_keepsVerdicts (hb : Buckets s.proposals) (htime : OnTime epoch tx)
    (hcall : tx.call ≠ .settle) (h : execGov P .allActive s tx = .ok s') :
    KeepsVerdicts .allActive epoch s.proposals s'.proposals := by
  unfold execGov at h
  unfold OnTime at htime
  cases hc : tx.call with
  | create tc =>
    rw [hc] at h htime
    obtain ⟨hinput, staking, rfl⟩ := create_spec (mapError_eq_ok.1 h)
    simp only [validateCreateInput, bind_eq_ok, reject_eq_ok] at hinput
    obtain ⟨_, -, _, -, _, -, hduration⟩ := hinput
    obtain ⟨rfl, hfits⟩ := htime
    exact finalizeProposal_keepsVerdicts hb (fun hzero => hduration ⟨rfl, hzero⟩) hfits
  | vote tc =>
    rw [hc] at h
    obtain ⟨type, p, acc, σ', staking, hp, -, -, -, -, hindex, rfl⟩ :=
      vote_spec (mapError_eq_ok.1 h)
    exact (indexVote_terms hp (castVote_terms _ _ _ _ _ _) hindex).keepsVerdicts
  | freeze amount =>
    rw [hc] at h
    rw [kappFreeze_proposals (mapError_eq_ok.1 h)]
    exact (SameTerms.refl _).keepsVerdicts
  | unfreeze bucketID =>
    rw [hc] at h
    obtain ⟨amount, total, a, -, hvotes⟩ := kappUnfreeze_votes (mapError_eq_ok.1 h)
    exact (updateVotes_terms hvotes).keepsVerdicts
  | settle => exact absurd hc hcall

theorem execGov_staking (h : execGov P .allActive s tx = .ok s') {x : Bytes}
    (hx : s.staking.lookup x ≠ none) : s'.staking.lookup x ≠ none := by
  have hinsert : ∀ (m : FMap Bytes StakingData) (y : Bytes) (st : StakingData),
      m.lookup x ≠ none → (m.insert y st).lookup x ≠ none := by
    intro m y st hm
    rw [FMap.lookup_insert_eq]
    split
    · exact Option.some_ne_none st
    · exact hm
  unfold execGov at h
  cases hc : tx.call with
  | create tc =>
    rw [hc] at h
    obtain ⟨-, staking, rfl⟩ := create_spec (mapError_eq_ok.1 h)
    exact hx
  | vote tc =>
    rw [hc] at h
    obtain ⟨_, _, _, _, _, -, -, -, -, -, -, rfl⟩ := vote_spec (mapError_eq_ok.1 h)
    exact hx
  | freeze amount =>
    rw [hc] at h
    have hfreeze := mapError_eq_ok.1 h
    simp only [kappFreeze, bind_eq_ok, pure_eq_ok] at hfreeze
    obtain ⟨_, -, _, -, _, -, _, -, _, -, _, -, _, -, _, -, _, -, _, -, _, -, _, -, rfl⟩ := hfreeze
    exact hinsert _ _ _ hx
  | unfreeze bucketID =>
    rw [hc] at h
    have hunfreeze := mapError_eq_ok.1 h
    simp only [kappUnfreeze, bind_eq_ok] at hunfreeze
    obtain ⟨_, -, _, -, _, -, _, -, _, -, _, -, _, -, _, -, hvotes⟩ := hunfreeze
    obtain ⟨σ, rfl⟩ := handleProposalVotesOnUnfreeze_frame hvotes
    exact hinsert _ _ _ hx
  | settle =>
    rw [hc] at h
    obtain ⟨r, hr, rfl⟩ := map_eq_ok.1 h
    rcases processProposalsEndOfEpoch_spec hr with ⟨-, hsame⟩ | ⟨_, _, _, _, _, -, -, -, hr'⟩
    · rw [hsame]
      exact hx
    · rw [hr']
      exact hx

theorem KeepsVerdicts.timely (h : KeepsVerdicts fc epoch s.proposals s'.proposals)
    (hs : Timely epoch s) (hb : Buckets s'.proposals)
    (hnative : ∀ x, x = KLVIdentifier ∨ x = KFIIdentifier → s'.staking.lookup x ≠ none) :
    Timely epoch s' := by
  refine ⟨hb, hnative, fun id p' hp' => ?_⟩
  cases hp : s.proposals.proposals.lookup id with
  | none =>
    obtain ⟨hactive, hlt⟩ := h.created id p' hp hp'
    exact ⟨fun _ => hlt, fun _ => hactive⟩
  | some p =>
    obtain ⟨q, hq, hstatus, hend⟩ := h.stored id p hp
    rw [hp'] at hq
    cases hq
    rw [hstatus, hend]
    exact hs.active id p hp

/-- A settlement leaves the proposals active whose last epoch is still to come. -/
theorem Settlement.timely {kfi : StakingData} {next : UInt32}
    (h : Settlement fc kfi next s.proposals s'.proposals) (hs : Timely epoch s)
    (hnext : next.toNat = epoch.toNat + 1) (hb : Buckets s'.proposals)
    (hnative : ∀ x, x = KLVIdentifier ∨ x = KFIIdentifier → s'.staking.lookup x ≠ none) :
    Timely next s' := by
  refine ⟨hb, hnative, fun id p' hp' => ?_⟩
  by_cases hid : id ∈ bucketOf s.proposals next
  · rw [h.proposals.inside id hid] at hp'
    obtain ⟨p, hp, rfl⟩ := Option.map_eq_some_iff.1 hp'
    obtain ⟨q, hq, -, hend⟩ := (mem_bucketOf hs.buckets).1 hid
    rw [hp] at hq
    cases hq
    refine ⟨fun hactive => absurd hactive ?_, fun hlt => ?_⟩
    · dsimp only [settled]
      split <;> decide
    exact absurd (hend ▸ hlt) (UInt32.lt_irrefl next)
  · rw [h.proposals.outside id hid] at hp'
    rw [hs.active id p' hp', UInt32.lt_iff_toNat_lt, UInt32.lt_iff_toNat_lt, hnext]
    constructor
    · intro hlt
      -- an active proposal that ends now would be in the bucket
      have hne : p'.epochEnd.toNat ≠ next.toNat := by
        intro heq
        have hactive := (hs.active id p' hp').2 (UInt32.lt_iff_toNat_lt.2 hlt)
        exact hid ((mem_bucketOf hs.buckets).2 ⟨p', hp', hactive, UInt32.toNat_inj.1 heq⟩)
      omega
    · omega

theorem Timely.settle (hs : Timely epoch s) (htime : OnTime epoch tx) (hcall : tx.call = .settle) :
    ∃ s'' kfi, execGov P .allActive s tx = .ok s'' ∧ s.staking.lookup KFIIdentifier = some kfi ∧
      Settlement .allActive kfi tx.ctx.epoch s.proposals s''.proposals ∧
      Timely (nextEpoch epoch tx) s'' := by
  obtain ⟨klv, hklv⟩ := Option.ne_none_iff_exists'.1 (hs.native KLVIdentifier (.inl rfl))
  obtain ⟨kfi, hkfi⟩ := Option.ne_none_iff_exists'.1 (hs.native KFIIdentifier (.inr rfl))
  have hfork : ForkController.allActive.fixAuditChangesV6 = true := rfl
  obtain ⟨σ', live', hok, hsettle⟩ :=
    processProposalsEndOfEpoch_eq hfork hs.buckets hklv hkfi tx.ctx.epoch tx.params
  have hexec : execGov P .allActive s tx = .ok { s with proposals := σ' } := by
    rw [execGov, hcall]
    rw [hok]
    rfl
  refine ⟨_, kfi, hexec, hkfi, hsettle, ?_⟩
  rw [OnTime, hcall] at htime
  rw [nextEpoch, hcall]
  exact hsettle.timely hs htime ((execGov_store hexec).buckets hs.buckets) hs.native

/-- **Every call on time keeps the proposals timely.** -/
theorem Timely.attempt (hs : Timely epoch s) (htime : OnTime epoch tx) :
    Timely (nextEpoch epoch tx) (attemptGov P .allActive s tx) := by
  by_cases hcall : tx.call = .settle
  · obtain ⟨s'', kfi, hexec, -, -, htimely⟩ := Timely.settle (P := P) hs htime hcall
    rw [attemptGov, hexec]
    exact htimely
  have hsame : nextEpoch epoch tx = epoch := by
    unfold nextEpoch
    split
    · rename_i heq
      exact absurd heq hcall
    · rfl
  rw [hsame, attemptGov]
  cases hexec : execGov P .allActive s tx with
  | error e => exact hs
  | ok s' =>
    exact (execGov_keepsVerdicts hs.buckets htime hcall hexec).timely hs
      ((execGov_store hexec).buckets hs.buckets)
      fun x hx => execGov_staking hexec (hs.native x hx)

theorem Timely.run {txs : List GovTx} (hs : Timely epoch s) (horder : InOrder epoch txs) :
    Timely (epochAfter epoch txs) (runGov P .allActive s txs) := by
  induction txs generalizing s epoch with
  | nil => exact hs
  | cons tx rest ih => exact ih (hs.attempt horder.1) horder.2

end

/-! ## The life of a proposal -/

/-- A proposal is once in the bucket of its last epoch while it is active, and in no other bucket;
afterwards it is in none. -/
def Placed (σ : ProposalStore) (id : Nat) (p : ProposalData) : Prop :=
  ∀ epoch, (bucketOf σ epoch).count id =
    if p.proposalStatus = .ActiveProposal ∧ p.epochEnd = epoch then 1 else 0

variable {σ : ProposalStore}

theorem Buckets.placed (hb : Buckets σ) {id : Nat} {p : ProposalData}
    (hp : σ.proposals.lookup id = some p) : Placed σ id p := by
  intro epoch
  split
  · rename_i h
    exact List.count_eq_one_of_mem (bucketOf_nodup hb epoch)
      ((mem_bucketOf hb).2 ⟨p, hp, h.1, h.2⟩)
  rename_i h
  refine List.count_eq_zero.2 fun hid => ?_
  obtain ⟨q, hq, hactive, hend⟩ := (mem_bucketOf hb).1 hid
  rw [hp] at hq
  cases hq
  exact h ⟨hactive, hend⟩

/-- The start of an epoch: each active proposal that ends in it is approved if it is carried and
denied otherwise, the other proposals stay as they are, and the approved ones of the bucket, in
its order, overwrite the parameters in force. -/
structure SettlesEpoch (kfi : StakingData) (epoch : UInt32) (σ σ' : ProposalStore) : Prop where
  verdict : ∀ id p, σ.proposals.lookup id = some p → p.proposalStatus = .ActiveProposal →
    p.epochEnd = epoch → ∃ p', σ'.proposals.lookup id = some p' ∧
      (p'.proposalStatus = .ApprovedProposal ↔ Carried kfi (inForce .allActive σ) p) ∧
      (p'.proposalStatus = .DeniedProposal ↔ ¬ Carried kfi (inForce .allActive σ) p)
  others : ∀ id, (∀ p, σ.proposals.lookup id = some p →
    ¬ (p.proposalStatus = .ActiveProposal ∧ p.epochEnd = epoch)) →
      σ'.proposals.lookup id = σ.proposals.lookup id
  parameters : OverwritesAll (inForce .allActive σ) (approvedOf σ'.proposals (bucketOf σ epoch))
    (inForce .allActive σ')

variable {kfi : StakingData}

theorem Settlement.settlesEpoch {epoch : UInt32} {σ' : ProposalStore}
    (h : Settlement .allActive kfi epoch σ σ') (hb : Buckets σ) (hkfi : 0 ≤ kfi.totalStaked.toInt) :
    SettlesEpoch kfi epoch σ σ' where
  verdict id p hp hactive hend := by
    have hfork : ForkController.allActive.fixAuditChangesV6 = true := rfl
    refine ⟨_, ?_, settled_status hfork hkfi⟩
    rw [h.proposals.inside id ((mem_bucketOf hb).2 ⟨p, hp, hactive, hend⟩), hp]
    rfl
  others id hother := by
    refine h.proposals.outside id fun hid => ?_
    obtain ⟨p, hp, hactive, hend⟩ := (mem_bucketOf hb).1 hid
    exact hother p hp ⟨hactive, hend⟩
  parameters := h.parameters

/-- A chain before the first proposal, with the stake of KFI in order and the staking records of
KLV and KFI in place. -/
structure GovernanceStart (s : Chain) : Prop where
  voting : VotingStart s
  native : ∀ x, x = KLVIdentifier ∨ x = KFIIdentifier → s.staking.lookup x ≠ none

theorem GovernanceStart.timely {s : Chain} (h : GovernanceStart s) (epoch : UInt32) :
    Timely epoch s := by
  refine ⟨h.voting.unused.buckets, h.native, fun id p hp => ?_⟩
  rw [h.voting.unused.proposals] at hp
  cases hp

theorem Staked.totalStaked_nonneg {s : Chain} (h : Staked s)
    (hkfi : s.staking.lookup KFIIdentifier = some kfi) : 0 ≤ kfi.totalStaked.toInt := by
  have hnonneg : 0 ≤ allFrozenKFI s := FMap.sumBy_nonneg h.frozenKFI_nonneg
  have hlt := h.allFrozenKFI_lt
  have hexact : kfi.totalStaked.toInt = allFrozenKFI s := by
    rw [h.principal.total KFIIdentifier kfi hkfi]
    unfold allFrozenKFI frozenKFI at hnonneg hlt
    exact Amount.toInt_sumBy (by omega) hlt
  omega

/-- **Governance settlement.**  Take any run in which epochs start once each and in order.  After
it every proposal is in its bucket exactly while it is active, which is until its last epoch
starts; no call but a settlement changes a verdict or the parameters in force; and the start of
the next epoch succeeds and settles the proposals that end in it. -/
theorem governance_settlement {P : Platform} {s : Chain} {epoch : UInt32} {txs : List GovTx}
    (hstart : GovernanceStart s) (horder : InOrder epoch txs)
    (hfits : assetTotal s KFIIdentifier + paidKFIOfRun P s txs < 2 ^ 63) :
    (∀ id p, (runGov P .allActive s txs).proposals.proposals.lookup id = some p →
      Placed (runGov P .allActive s txs).proposals id p ∧
      (p.proposalStatus = .ActiveProposal ↔ epochAfter epoch txs < p.epochEnd)) ∧
    (∀ tx, OnTime (epochAfter epoch txs) tx → tx.call ≠ .settle →
      KeepsVerdicts .allActive (epochAfter epoch txs) (runGov P .allActive s txs).proposals
        (attemptGov P .allActive (runGov P .allActive s txs) tx).proposals) ∧
    ∀ tx, OnTime (epochAfter epoch txs) tx → tx.call = .settle →
      ∃ s' kfi, execGov P .allActive (runGov P .allActive s txs) tx = .ok s' ∧
        (runGov P .allActive s txs).staking.lookup KFIIdentifier = some kfi ∧
        SettlesEpoch kfi tx.ctx.epoch (runGov P .allActive s txs).proposals s'.proposals := by
  have htimely := Timely.run (P := P) (hstart.timely epoch) horder
  refine ⟨fun id p hp => ⟨htimely.buckets.placed hp, htimely.active id p hp⟩,
    fun tx htime hcall => ?_, fun tx htime hcall => ?_⟩
  · unfold attemptGov
    cases hexec : execGov P .allActive (runGov P .allActive s txs) tx with
    | error e => exact (SameTerms.refl _).keepsVerdicts
    | ok s' => exact execGov_keepsVerdicts htimely.buckets htime hcall hexec
  obtain ⟨s', kfi, hexec, hkfi, hsettle, -⟩ := htimely.settle htime hcall
  -- an epoch is still to start, so no call was in the last one
  have hepochs : ∀ t ∈ txs, t.ctx.epoch ≠ DefaultUnstakedEpoch := by
    intro t ht hlast
    have hle := horder.epoch_le.2 t ht
    rw [OnTime, hcall] at htime
    have hlt := tx.ctx.epoch.toNat_lt
    rw [hlast, DefaultUnstakedEpoch] at hle
    have hmax : (4294967295 : UInt32).toNat = 4294967295 := rfl
    omega
  have hpaid := paidKFIOfRun_nonneg P s txs
  have hinv := runGov_votes (hstart.voting.inv (by omega)) hepochs hfits
  exact ⟨s', kfi, hexec, hkfi, hsettle.settlesEpoch htimely.buckets
    (hinv.staked.totalStaked_nonneg hkfi)⟩

/-- A proposal of epoch 1 for three epochs, a vote with all the stake, and the epochs up to its
last one. -/
def sampleLife : List GovTx :=
  [sampleGovTx 1 [1] (.freeze 100), sampleGovTx 1 [1] (.create sampleProposal),
    sampleGovTx 1 [1] (.vote ⟨1, 100, some .Yes⟩), sampleGovTx 2 [] .settle,
    sampleGovTx 3 [] .settle]

/-- At the start of epoch 4 the sample proposal is settled. -/
theorem governance_settlement_sample :
    ((runGov samplePlatform .allActive sampleVoters sampleLife).proposals.proposals.lookup 1).map
      (fun p => (p.proposalStatus, p.epochEnd)) = some (.ActiveProposal, 4) ∧
    ∃ s' kfi, execGov samplePlatform .allActive
        (runGov samplePlatform .allActive sampleVoters sampleLife) (sampleGovTx 4 [] .settle) =
        .ok s' ∧
      (runGov samplePlatform .allActive sampleVoters sampleLife).staking.lookup KFIIdentifier =
        some kfi ∧
      SettlesEpoch kfi 4 (runGov samplePlatform .allActive sampleVoters sampleLife).proposals
        s'.proposals := by
  have hstart : GovernanceStart sampleVoters := by
    refine ⟨sampleVoters_start, ?_⟩
    rintro x (rfl | rfl) <;> decide
  have horder : InOrder 1 sampleLife := ⟨rfl, ⟨rfl, by decide⟩, rfl, rfl, rfl, trivial⟩
  exact ⟨by decide +kernel, (governance_settlement hstart horder (by decide +kernel)).2.2
    (sampleGovTx 4 [] .settle) rfl rfl⟩

end KleverGo.Governance
