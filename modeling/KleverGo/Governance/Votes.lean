import KleverGo.Governance.Index
import KleverGo.Staking.Supply

/-!
# Votes and stake

The votes of a proposal are kept twice: as totals by type and as the amount of each voter.  And
they are made with KFI that is frozen, which is recorded with the account.

* `Tallied`: the totals are the sums of the voters' amounts, modulo `2 ^ 64`.
* `Covered`: every voter still has the amount frozen.
* `VoteInv`: the invariant of a run; `attemptGov_votes` keeps it.
* `votes_within_stake`: votes never exceed stake.
-/

namespace KleverGo.Governance

open Staking FMap Option

/-! ## Totals -/

/-- What a vote counts for a type. -/
def shareOf (type : VoteType) (v : VoteDetail) : Int64 := if v.type = type then v.amount else 0

/-- The totals are the sums of the amounts, as the source adds them. -/
def Tallied (p : ProposalData) : Prop :=
  ∀ type, votesOf p type = p.voters.sumBy fun _ v => shareOf type v

theorem votesOf_addVotes (p : ProposalData) (type type' : VoteType) (delta : Int64) :
    votesOf (addVotes p type delta) type' = votesOf p type' + if type' = type then delta else 0 := by
  unfold addVotes votesOf
  simp only [lookup_insert_eq]
  split
  · rename_i heq
    rw [heq]
    rfl
  · rw [add_zero]

variable {p : ProposalData}

/-- Casting a vote exchanges the voter's old share for the new one. -/
theorem castVote_tallied (h : Tallied p) (addr : Bytes) (type : VoteType)
    (amount timestamp totalStaked : Int64) :
    Tallied (castVote p addr type amount timestamp totalStaked) := by
  intro type'
  have hsum := sumBy_insert (fun _ v => shareOf type' v) p.voters addr ⟨type, amount, timestamp⟩
  rw [← h type'] at hsum
  cases hold : p.voters.lookup addr with
  | none =>
    simp only [hold, elim_none, add_zero] at hsum
    simp only [castVote, processExistingVote, hold]
    refine Eq.trans ?_ hsum.symm
    refine (votesOf_addVotes p type type' (amount - 0)).trans ?_
    rw [sub_zero, shareOf]
    simp only [eq_comm]
  | some v =>
    simp only [hold, elim_some] at hsum
    rw [← eq_sub_iff_add_eq] at hsum
    by_cases htype : v.type = type
    · simp only [castVote, processExistingVote, hold, ne_eq, htype, not_true_eq_false, if_false]
      refine Eq.trans ?_ hsum.symm
      refine (votesOf_addVotes p type type' (amount - v.amount)).trans ?_
      unfold shareOf
      rw [htype]
      simp only [eq_comm]
      split <;> abel
    · simp only [castVote, processExistingVote, hold, ne_eq, htype, not_false_eq_true, if_true]
      refine Eq.trans ?_ hsum.symm
      refine (votesOf_addVotes _ type type' (amount - 0)).trans ?_
      rw [votesOf_addVotes]
      unfold shareOf
      simp only [eq_comm]
      split <;> split <;> abel

variable {update : ProposalVoteUpdate}

/-- Shrinking a vote takes from the total what it takes from the voter. -/
theorem updateVoterAndProposal_tallied (h : Tallied p) {voter : VoteDetail}
    (hvoter : p.voters.lookup update.encodedAddr = some voter) :
    Tallied (updateVoterAndProposal update voter p) := by
  intro type
  unfold updateVoterAndProposal
  split
  · have hsum := sumBy_erase (fun _ v => shareOf type v) p.voters update.encodedAddr
    rw [hvoter, elim_some, ← h type, ← eq_sub_iff_add_eq] at hsum
    refine Eq.trans ?_ hsum.symm
    refine (votesOf_addVotes p voter.type type (-voter.amount)).trans ?_
    unfold shareOf
    simp only [eq_comm]
    split <;> abel
  · have hsum := sumBy_insert (fun _ v => shareOf type v) p.voters update.encodedAddr
      { voter with amount := voter.amount - update.unfrozenAmount }
    rw [hvoter, elim_some, ← h type, ← eq_sub_iff_add_eq] at hsum
    refine Eq.trans ?_ hsum.symm
    refine (votesOf_addVotes p voter.type type (-update.unfrozenAmount)).trans ?_
    unfold shareOf
    simp only [eq_comm]
    split <;> abel

theorem shrunk_tallied {fc : ForkController} {total : Int64} (h : Tallied p) :
    Tallied (shrunk fc update total p) := by
  unfold shrunk
  split
  · exact h
  rename_i voter hvoter
  split
  · split
    · exact fun type => updateVoterAndProposal_tallied h hvoter type
    · exact updateVoterAndProposal_tallied h hvoter
  · exact h

/-- The totals are the sums of the amounts. -/
def Exact (p : ProposalData) : Prop :=
  ∀ type, (votesOf p type).toInt = p.voters.sumBy fun _ v => (shareOf type v).toInt

theorem Exact.tallied (h : Exact p) : Tallied p := by
  intro type
  have hlow := (votesOf p type).le_toInt
  have hhigh := (votesOf p type).toInt_lt
  rw [h type] at hlow hhigh
  rw [← Int64.toInt_inj, h type]
  exact (Amount.toInt_sumBy hlow hhigh).symm

/-! ## Stake -/

def frozenKFI (a : UserAccount) : Int := (a.getUserKDA KFIIdentifier []).frozenBalance.toInt

def allFrozenKFI (s : Chain) : Int := s.users.sumBy fun _ a => frozenKFI a

/-- Every vote is positive, and of at most what its voter has frozen. -/
def Covered (s : Chain) (p : ProposalData) : Prop :=
  ∀ addr v, p.voters.lookup addr = some v → 0 < v.amount.toInt ∧
    ∃ u a, addr = hexEncode u ∧ s.users.lookup u = some a ∧ v.amount.toInt ≤ frozenKFI a

/-- A chain on which the stake of KFI is exact. -/
structure Staked (s : Chain) : Prop where
  principal : Principal s
  sound : Sound KFIIdentifier s
  fits : assetTotal s KFIIdentifier < 2 ^ 63

namespace Staked

variable {s : Chain}

theorem frozenKFI_eq (h : Staked s) {u : Bytes} {a : UserAccount} (ha : s.users.lookup u = some a) :
    frozenKFI a = stakedTotal (a.getUserKDA KFIIdentifier []) :=
  h.principal.frozen_exact h.sound h.fits ha

theorem frozenKFI_nonneg (h : Staked s) (u : Bytes) (a : UserAccount)
    (ha : s.users.lookup u = some a) : 0 ≤ frozenKFI a := by
  rw [h.frozenKFI_eq ha]
  exact (h.sound u a ha).stakedTotal_nonneg

theorem allFrozenKFI_lt (h : Staked s) : allFrozenKFI s < 2 ^ 63 := by
  refine Int.lt_of_le_of_lt (sumBy_mono fun u a ha => ?_) h.fits
  rw [h.frozenKFI_eq ha]
  exact (h.sound u a ha).stakedTotal_le

variable {p : ProposalData}

/-- The votes of a covered proposal are within the stake of all accounts. -/
theorem votes_le (h : Staked s) (hp : Covered s p) :
    (p.voters.sumBy fun _ v => v.amount.toInt) ≤ allFrozenKFI s := by
  refine sumBy_le_sumBy hexEncode (fun addr v hv => ?_) h.frozenKFI_nonneg
  obtain ⟨-, u, a, haddr, ha, hle⟩ := hp addr v hv
  exact ⟨u, a, haddr, ha, hle⟩

theorem shareOf_le (type : VoteType) {v : VoteDetail} (h : 0 < v.amount.toInt) :
    0 ≤ (shareOf type v).toInt ∧ (shareOf type v).toInt ≤ v.amount.toInt := by
  unfold shareOf
  split
  · exact ⟨Int.le_of_lt h, Int.le_refl _⟩
  · exact ⟨Int.le_refl _, Int.le_of_lt h⟩

theorem exact (h : Staked s) (hp : Covered s p) (htallied : Tallied p) : Exact p := by
  intro type
  have hall := h.allFrozenKFI_lt
  have hvotes := h.votes_le hp
  have hnonneg : 0 ≤ p.voters.sumBy fun _ v => (shareOf type v).toInt :=
    sumBy_nonneg fun addr v hv => (shareOf_le type (hp addr v hv).1).1
  have hle : (p.voters.sumBy fun _ v => (shareOf type v).toInt) ≤
      p.voters.sumBy fun _ v => v.amount.toInt :=
    sumBy_mono fun addr v hv => (shareOf_le type (hp addr v hv).1).2
  rw [htallied type]
  exact Amount.toInt_sumBy (by omega) (by omega)

theorem total_le (h : Staked s) (hp : Covered s p) (hexact : Exact p) :
    (votesOf p .Yes).toInt + (votesOf p .No).toInt ≤ allFrozenKFI s := by
  refine Int.le_trans (Int.le_of_eq ?_) (h.votes_le hp)
  rw [hexact .Yes, hexact .No, ← sumBy_add]
  refine sumBy_congr fun addr v _ => ?_
  unfold shareOf
  cases v.type <;> simp

end Staked

/-! ## Runs -/

/-- The ballots of every proposal are right. -/
def Ballots (s : Chain) : Prop :=
  ∀ id p, s.proposals.proposals.lookup id = some p →
    Exact p ∧ (p.proposalStatus = .ActiveProposal → Covered s p)

/-- What holds between two calls of a run. -/
structure VoteInv (s : Chain) : Prop where
  buckets : Buckets s.proposals
  indexed : Indexed s.proposals
  staked : Staked s
  ballots : Ballots s

/-- The KFI the claim of a call pays; a call that fails is reverted. -/
def paidKFI (P : Platform) (s : Chain) (tx : GovTx) : Int :=
  match tx.call with
  | .freeze _ | .unfreeze _ =>
    if (execGov P .allActive s tx).isOk then
      (credited (dueGains P .allActive tx.ctx s tx.sender KFIIdentifier) KFIIdentifier).toInt
    else 0
  | _ => 0

/-- The KFI the claims of a run pay. -/
def paidKFIOfRun (P : Platform) : Chain → List GovTx → Int
  | _, [] => 0
  | s, tx :: rest => paidKFI P s tx + paidKFIOfRun P (attemptGov P .allActive s tx) rest

section
variable {P : Platform} {s s' : Chain}

theorem paidKFI_nonneg (P : Platform) (s : Chain) (tx : GovTx) : 0 ≤ paidKFI P s tx := by
  unfold paidKFI
  split
  · split
    · exact credited_nonneg _ _
    · exact Int.le_refl _
  · split
    · exact credited_nonneg _ _
    · exact Int.le_refl _
  · exact Int.le_refl _

theorem paidKFIOfRun_nonneg (P : Platform) (s : Chain) (txs : List GovTx) :
    0 ≤ paidKFIOfRun P s txs := by
  induction txs generalizing s with
  | nil => exact Int.le_refl _
  | cons tx rest ih => exact Int.add_nonneg (paidKFI_nonneg P s tx) (ih _)

theorem Staked.of_proposals (h : Staked s) (σ : ProposalStore) : Staked { s with proposals := σ } :=
  ⟨h.principal.of_proposals σ, h.sound, h.fits⟩

variable {p : ProposalData} {sender : Bytes} {a a' : UserAccount}

/-- An account written back with no less KFI frozen keeps the votes covered. -/
theorem Covered.of_insert (h : Covered s p) (ha : s.users.lookup sender = some a)
    (husers : s'.users = s.users.insert sender a') (hle : frozenKFI a ≤ frozenKFI a') :
    Covered s' p := by
  intro addr v hv
  obtain ⟨hpos, u, b, haddr, hb, hcover⟩ := h addr v hv
  refine ⟨hpos, ?_⟩
  by_cases hu : u = sender
  · subst hu
    rw [ha] at hb
    cases hb
    exact ⟨u, a', haddr, by rw [husers, AList.lookup_insert], by omega⟩
  · exact ⟨u, b, haddr, by rw [husers, lookup_insert_eq, if_neg hu]; exact hb, hcover⟩

variable {amount : Int64}

theorem Covered.castVote (h : Covered s p) (ha : s.users.lookup sender = some a)
    (hpos : 0 < amount.toInt) (hle : amount.toInt ≤ frozenKFI a) (type : VoteType)
    (timestamp totalStaked : Int64) :
    Covered s (castVote p (hexEncode sender) type amount timestamp totalStaked) := by
  intro addr v hv
  rw [castVote_voters] at hv
  split at hv
  · rename_i haddr
    cases hv
    exact ⟨hpos, sender, a, haddr, ha, hle⟩
  · exact h addr v hv

variable {update : ProposalVoteUpdate}

/-- Shrinking keeps votes covered: what is taken from a vote is what the voter unfroze. -/
theorem Covered.shrunk (h : Covered s p) (ha : s.users.lookup sender = some a)
    (husers : s'.users = s.users.insert sender a') (hsender : update.encodedAddr = hexEncode sender)
    (hfrozen : update.frozenBalance.toInt = frozenKFI a')
    (hamount : 0 ≤ update.unfrozenAmount.toInt)
    (hleft : frozenKFI a' = frozenKFI a - update.unfrozenAmount.toInt) (total : Int64)
    (fc : ForkController) : Covered s' (shrunk fc update total p) := by
  intro addr v hv
  by_cases haddr : addr = update.encodedAddr
  · subst haddr
    rw [shrunk_voter] at hv
    obtain ⟨voter, hvoter, hv⟩ := bind_eq_some_iff.1 hv
    obtain ⟨hpos, u, b, hu, hb, hcover⟩ := h _ voter hvoter
    cases hexEncode_injective (hsender.symm.trans hu)
    rw [ha] at hb
    cases hb
    have hstored : s'.users.lookup sender = some a' := by rw [husers, AList.lookup_insert]
    split at hv
    · split at hv
      · cases hv
      rename_i hlt
      cases hv
      rw [Int64.not_le, Int64.lt_iff_toInt_lt] at hlt
      rw [Amount.toInt_sub (by omega) hamount]
      exact ⟨by omega, sender, a', hsender, hstored, by omega⟩
    · rename_i hcovered
      cases hv
      rw [Int64.not_lt, Int64.le_iff_toInt_le] at hcovered
      exact ⟨hpos, sender, a', hsender, hstored, by omega⟩
  · rw [shrunk_voter_ne p haddr] at hv
    obtain ⟨hpos, u, b, hu, hb, hcover⟩ := h addr v hv
    refine ⟨hpos, u, b, hu, ?_, hcover⟩
    rw [husers, lookup_insert_eq, if_neg, hb]
    rintro rfl
    exact haddr (hu.trans hsender.symm)

theorem Staked.of_insert (h : Staked s) {δ : Int} (hprincipal : Principal s')
    (ha : s.users.lookup sender = some a) (husers : s'.users = s.users.insert sender a')
    (hsound : SoundRecord (a'.getUserKDA KFIIdentifier []))
    (htotal : recordTotal (a'.getUserKDA KFIIdentifier []) =
      recordTotal (a.getUserKDA KFIIdentifier []) + δ)
    (hfits : assetTotal s KFIIdentifier + δ < 2 ^ 63) :
    Staked s' ∧ assetTotal s' KFIIdentifier = assetTotal s KFIIdentifier + δ := by
  have hassets := assetTotal_insert ha husers htotal
  exact ⟨⟨hprincipal, h.sound.insert husers hsound, by omega⟩, hassets⟩

variable {params : Parameters} {ctx : KappContext} {fc : ForkController}

theorem kappFreeze_proposals {tc : FreezeContract}
    (h : kappFreeze P fc params ctx s sender tc = .ok s') : s'.proposals = s.proposals := by
  simp only [kappFreeze, bind_eq_ok, pure_eq_ok] at h
  obtain ⟨_, -, _, -, _, -, _, -, _, -, _, -, _, -, _, -, _, -, _, -, _, -, _, -, rfl⟩ := h
  rfl

theorem handleProposalVotesOnUnfreeze_kfi (hstaking : s.staking.lookup KFIIdentifier ≠ none)
    (h : handleProposalVotesOnUnfreeze fc s a KFIIdentifier sender amount = .ok s') :
    ∃ total, updateVotes fc ⟨hexEncode sender, amount,
      (a.getUserKDA KFIIdentifier []).frozenBalance, .ok total⟩ s.proposals = .ok s'.proposals := by
  obtain ⟨staking, hstaking⟩ := ne_none_iff_exists'.1 hstaking
  simp only [handleProposalVotesOnUnfreeze, ne_eq, not_true_eq_false, if_false, bind_eq_ok,
    withCode_eq_ok, pure_eq_ok, Chain.getStaking, hstaking] at h
  obtain ⟨σ, hσ, rfl⟩ := h
  exact ⟨staking.totalStaked, hσ⟩

theorem create_ballots {tc : ProposalContract} (h : Ballots s)
    (hcreate : create P .allActive params ctx s sender tc = .ok s') : Ballots s' := by
  obtain ⟨-, staking, rfl⟩ := create_spec hcreate
  intro id p hp
  rw [finalizeProposal_eq] at hp
  rw [lookup_insert_eq] at hp
  split at hp
  · cases hp
    refine ⟨fun type => rfl, fun _ addr v hv => ?_⟩
    cases hv
  · exact h id p hp

theorem vote_ballots {tc : VoteContract} (hs : Staked s) (h : Ballots s)
    (hvote : vote .allActive params ctx s sender tc = .ok s') : Ballots s' := by
  obtain ⟨type, p, a, σ', staking, hp, hactive, hpos, ha, hle, hindex, rfl⟩ := vote_spec hvote
  obtain ⟨votes, rfl⟩ := indexVote_frame hindex
  rw [Amount.pos_iff] at hpos
  rw [Int64.le_iff_toInt_le] at hle
  intro id q hq
  simp only [setProposal, lookup_insert_eq] at hq
  split at hq
  · cases hq
    obtain ⟨hexact, hcovered⟩ := h tc.proposalID p hp
    have hcast := (hcovered hactive).castVote ha hpos hle type ctx.timestamp staking.totalStaked
    exact ⟨hs.exact hcast (castVote_tallied hexact.tallied _ _ _ _ _), fun _ => hcast⟩
  · exact h id q hq

theorem settle_ballots {epoch : UInt32} {live : Parameters} {r : Chain × Parameters} (h : Ballots s)
    (hsettle : processProposalsEndOfEpoch .allActive epoch s live = .ok r) :
    Ballots r.1 := by
  rcases processProposalsEndOfEpoch_spec hsettle with ⟨-, hsame⟩ |
    ⟨ids, kfi, σ', live1, live', -, -, hbucket, hr⟩
  · rw [hsame]
    exact h
  rw [hr]
  obtain ⟨-, -, -, hother, hmem⟩ := settleBucket_spec hbucket
  intro id p' hp'
  by_cases hid : id ∈ ids
  · obtain ⟨p, q, hp, hq, hstatus, hballots⟩ := hmem id hid
    rw [hq] at hp'
    cases hp'
    refine ⟨?_, fun hactive => absurd hactive hstatus⟩
    rw [hballots]
    exact (h id p hp).1
  · exact h id p' ((hother id hid).symm.trans hp')

theorem freeze_ballots (hs : Staked s) (hs' : Staked s') (h : Ballots s)
    (ha : s.users.lookup sender = some a) (husers : s'.users = s.users.insert sender a')
    (hstaked : stakedTotal (a.getUserKDA KFIIdentifier []) ≤
      stakedTotal (a'.getUserKDA KFIIdentifier []))
    (hproposals : s'.proposals = s.proposals) : Ballots s' := by
  have ha' : s'.users.lookup sender = some a' := by rw [husers, AList.lookup_insert]
  rw [← hs.frozenKFI_eq ha, ← hs'.frozenKFI_eq ha'] at hstaked
  intro id p hp
  rw [hproposals] at hp
  obtain ⟨hexact, hcovered⟩ := h id p hp
  exact ⟨hexact, fun hactive => (hcovered hactive).of_insert ha husers hstaked⟩

/-- Unfreezing shrinks every vote it has to. -/
theorem unfreeze_ballots {total : Int64} (hb : Buckets s.proposals) (hi : Indexed s.proposals)
    (hs : Staked s) (hs' : Staked s') (h : Ballots s) (ha : s.users.lookup sender = some a)
    (husers : s'.users = s.users.insert sender a') (hsender : update.encodedAddr = hexEncode sender)
    (hfrozen : update.frozenBalance = (a'.getUserKDA KFIIdentifier []).frozenBalance)
    (hkfi : update.kfiStaked = .ok total) (hamount : 0 ≤ update.unfrozenAmount.toInt)
    (hstaked : stakedTotal (a'.getUserKDA KFIIdentifier []) =
      stakedTotal (a.getUserKDA KFIIdentifier []) - update.unfrozenAmount.toInt)
    (hvotes : updateVotes .allActive update s.proposals = .ok s'.proposals) : Ballots s' := by
  have ha' : s'.users.lookup sender = some a' := by rw [husers, AList.lookup_insert]
  rw [← hs.frozenKFI_eq ha, ← hs'.frozenKFI_eq ha'] at hstaked
  have hfork : ForkController.allActive.fixAuditChangesV5 = true := rfl
  rw [updateVotes, if_pos hfork] at hvotes
  rcases processIndexedProposalVotes_eq .allActive hb hi hkfi with ⟨σ', hok, hre⟩ | ⟨⟨e, herror⟩, -⟩
  · rw [hvotes] at hok
    cases hok
    intro id p' hp'
    by_cases hid : id ∈ activeSet s.proposals
    · rw [hre.proposals.inside id hid] at hp'
      obtain ⟨p, hp, rfl⟩ := map_eq_some_iff.1 hp'
      obtain ⟨q, hq, hactive⟩ := (hb.active id).1 hid
      rw [hp] at hq
      cases hq
      obtain ⟨hexact, hcovered⟩ := h id p hp
      have hshrunk := (hcovered hactive).shrunk ha husers hsender (by rw [hfrozen, frozenKFI])
        hamount hstaked total .allActive
      exact ⟨hs'.exact hshrunk (shrunk_tallied hexact.tallied), fun _ => hshrunk⟩
    · rw [hre.proposals.outside id hid] at hp'
      exact ⟨(h id p' hp').1, fun hactive => absurd ((hb.active id).2 ⟨p', hp', hactive⟩) hid⟩
  · rw [hvotes] at herror
    cases herror

/-- A call that leaves the accounts keeps the invariant if it keeps the ballots right. -/
theorem VoteInv.of_proposals {σ : ProposalStore} (h : VoteInv s)
    (hstep : StoreStep .allActive s.proposals σ) (hballots : Ballots { s with proposals := σ }) :
    VoteInv { s with proposals := σ } :=
  ⟨hstep.buckets h.buckets, hstep.indexed rfl h.buckets h.indexed, h.staked.of_proposals σ, hballots⟩

variable {tx : GovTx}

section
variable (h : VoteInv s) (hepoch : tx.ctx.epoch ≠ DefaultUnstakedEpoch)
  (hfits : assetTotal s KFIIdentifier + paidKFI P s tx < 2 ^ 63)
include h hepoch hfits

/-- Every call keeps the invariant, and adds to the supply what its claim pays. -/
theorem execGov_votes (hexec : execGov P .allActive s tx = .ok s') :
    VoteInv s' ∧ assetTotal s' KFIIdentifier = assetTotal s KFIIdentifier + paidKFI P s tx := by
  have hstep := execGov_store hexec
  have hok : (execGov P .allActive s tx).isOk = true := by rw [hexec]; rfl
  have hkfi : KFIIdentifier ≠ KLVIdentifier := by decide
  have hasset : UserAccount.assetOf (some KFIIdentifier) = KFIIdentifier := by decide
  cases hcall : tx.call with
  | create tc =>
    have hpaid : paidKFI P s tx = 0 := by rw [paidKFI, hcall]
    rw [execGov, hcall] at hexec
    have hcreate := mapError_eq_ok.1 hexec
    have hballots := create_ballots h.ballots hcreate
    obtain ⟨-, staking, rfl⟩ := create_spec hcreate
    exact ⟨h.of_proposals hstep hballots, by rw [hpaid, Int.add_zero]; rfl⟩
  | vote tc =>
    have hpaid : paidKFI P s tx = 0 := by rw [paidKFI, hcall]
    rw [execGov, hcall] at hexec
    have hvote := mapError_eq_ok.1 hexec
    have hballots := vote_ballots h.staked h.ballots hvote
    obtain ⟨_, _, _, _, _, -, -, -, -, -, -, rfl⟩ := vote_spec hvote
    exact ⟨h.of_proposals hstep hballots, by rw [hpaid, Int.add_zero]; rfl⟩
  | freeze amount =>
    simp only [paidKFI, hcall, hok, if_true] at hfits ⊢
    rw [execGov, hcall] at hexec
    have hfreeze := mapError_eq_ok.1 hexec
    obtain ⟨a, a', ha, husers, hsound, htotal, hstaked⟩ :=
      kappFreeze_supply hkfi hasset h.staked.sound hfits hfreeze
    obtain ⟨hs', hassets⟩ := h.staked.of_insert (kappFreeze_conserves h.staked.principal hfreeze).1 ha
      husers hsound htotal hfits
    refine ⟨⟨hstep.buckets h.buckets, hstep.indexed rfl h.buckets h.indexed, hs', ?_⟩, hassets⟩
    exact freeze_ballots h.staked hs' h.ballots ha husers hstaked (kappFreeze_proposals hfreeze)
  | unfreeze bucketID =>
    simp only [paidKFI, hcall, hok, if_true] at hfits ⊢
    rw [execGov, hcall] at hexec
    have hunfreeze := mapError_eq_ok.1 hexec
    obtain ⟨a, a', s1, amount, ha, husers, hsound, htotal, hamount, hstaked, hproposals, hstaking,
      hvotes⟩ := kappUnfreeze_supply hkfi hasset hepoch h.staked.sound hfits hunfreeze
    obtain ⟨hs', hassets⟩ := h.staked.of_insert
      (kappUnfreeze_conserves h.staked.principal hepoch hunfreeze).1 ha husers hsound htotal hfits
    refine ⟨⟨hstep.buckets h.buckets, hstep.indexed rfl h.buckets h.indexed, hs', ?_⟩, hassets⟩
    obtain ⟨total, hupdate⟩ := handleProposalVotesOnUnfreeze_kfi hstaking hvotes
    exact unfreeze_ballots h.buckets h.indexed h.staked hs' h.ballots ha husers rfl rfl rfl
      hamount hstaked (hproposals ▸ hupdate)
  | settle =>
    have hpaid : paidKFI P s tx = 0 := by rw [paidKFI, hcall]
    rw [execGov, hcall] at hexec
    obtain ⟨r, hr, rfl⟩ := map_eq_ok.1 hexec
    have hballots := settle_ballots h.ballots hr
    rcases processProposalsEndOfEpoch_spec hr with ⟨-, hsame⟩ | ⟨_, _, σ', _, _, -, -, -, hr'⟩
    · rw [hsame, hpaid, Int.add_zero]
      exact ⟨h, rfl⟩
    · rw [hr'] at hstep hballots ⊢
      exact ⟨h.of_proposals hstep hballots, by rw [hpaid, Int.add_zero]; rfl⟩

theorem attemptGov_votes :
    VoteInv (attemptGov P .allActive s tx) ∧
      assetTotal (attemptGov P .allActive s tx) KFIIdentifier =
        assetTotal s KFIIdentifier + paidKFI P s tx := by
  unfold attemptGov
  cases hexec : execGov P .allActive s tx with
  | ok s' => exact execGov_votes h hepoch hfits hexec
  | error e =>
    have hpaid : paidKFI P s tx = 0 := by
      unfold paidKFI
      simp only [hexec, Except.isOk, Except.toBool, Bool.false_eq_true, if_false]
      split <;> rfl
    rw [hpaid, Int.add_zero]
    exact ⟨h, rfl⟩

end

/-- A run keeps the invariant while the KFI held and paid fits. -/
theorem runGov_votes {txs : List GovTx} (h : VoteInv s)
    (hepochs : ∀ tx ∈ txs, tx.ctx.epoch ≠ DefaultUnstakedEpoch)
    (hfits : assetTotal s KFIIdentifier + paidKFIOfRun P s txs < 2 ^ 63) :
    VoteInv (runGov P .allActive s txs) := by
  induction txs generalizing s with
  | nil => exact h
  | cons tx rest ih =>
    have hrest := paidKFIOfRun_nonneg P (attemptGov P .allActive s tx) rest
    rw [paidKFIOfRun] at hfits
    obtain ⟨hinv, hassets⟩ := attemptGov_votes h (hepochs tx List.mem_cons_self)
      (show assetTotal s KFIIdentifier + paidKFI P s tx < 2 ^ 63 by omega)
    exact ih hinv (fun t ht => hepochs t (List.mem_cons_of_mem _ ht)) (by omega)

/-- A chain before the first proposal, with the stake of KFI in order. -/
structure VotingStart (s : Chain) : Prop where
  unused : Unused s.proposals
  principal : Principal s
  sound : Sound KFIIdentifier s

theorem VotingStart.inv (h : VotingStart s) (hfits : assetTotal s KFIIdentifier < 2 ^ 63) :
    VoteInv s where
  buckets := h.unused.buckets
  indexed := Unindexed.indexed h.unused.buckets ⟨h.unused.votes, h.unused.preForkVotes⟩
  staked := ⟨h.principal, h.sound, hfits⟩
  ballots id p hp := by
    rw [h.unused.proposals] at hp
    cases hp

/-- Votes are within the stake: the totals of every proposal are the sums of its voters' amounts,
and on an active proposal every voter has the positive amount of the vote frozen. -/
structure VotesWithinStake (s : Chain) : Prop where
  exact : ∀ id p, s.proposals.proposals.lookup id = some p → Exact p
  covered : ∀ id p, s.proposals.proposals.lookup id = some p →
    p.proposalStatus = .ActiveProposal → Covered s p
  total : ∀ id p, s.proposals.proposals.lookup id = some p →
    p.proposalStatus = .ActiveProposal →
      (votesOf p .Yes).toInt + (votesOf p .No).toInt ≤ allFrozenKFI s

theorem VoteInv.within (h : VoteInv s) : VotesWithinStake s where
  exact id p hp := (h.ballots id p hp).1
  covered id p hp hactive := (h.ballots id p hp).2 hactive
  total id p hp hactive := h.staked.total_le ((h.ballots id p hp).2 hactive) (h.ballots id p hp).1

/-- **Votes never exceed stake**, over every run of creations, votes, freezes, unfreezes and
settlements before the last epoch in which the KFI held and paid fits in an `int64`. -/
theorem votes_within_stake {txs : List GovTx} (hstart : VotingStart s)
    (hepochs : ∀ tx ∈ txs, tx.ctx.epoch ≠ DefaultUnstakedEpoch)
    (hfits : assetTotal s KFIIdentifier + paidKFIOfRun P s txs < 2 ^ 63) :
    VotesWithinStake (runGov P .allActive s txs) := by
  have hrewards := paidKFIOfRun_nonneg P s txs
  exact (runGov_votes (hstart.inv (by omega)) hepochs hfits).within

end

/-! ## Sample runs -/

theorem sampleVoters_account {u : Bytes} {a : UserAccount} (h : sampleVoters.users.lookup u = some a) :
    a = sampleVoter := by
  simp only [sampleVoters, lookup_insert_eq, AList.lookup_empty] at h
  split at h
  · cases h
    rfl
  · split at h
    · cases h
      rfl
    · cases h

theorem sampleVoter_record (x : Bytes) :
    (sampleVoter.getUserKDA x []).frozenBalance = 0 ∧ (sampleVoter.getUserKDA x []).bucketMap = ∅ := by
  simp only [UserAccount.getUserKDA, sampleVoter, lookup_insert_eq, AList.lookup_empty]
  split <;> exact ⟨rfl, rfl⟩

theorem sampleVoters_start : VotingStart sampleVoters where
  unused := ⟨rfl, rfl, rfl, rfl⟩
  principal := by
    refine Principal.of_unstaked (fun u a ha x => ?_) fun x staking hx => ?_
    · rw [sampleVoters_account ha]
      exact sampleVoter_record x
    simp only [sampleVoters, lookup_insert_eq, AList.lookup_empty] at hx
    split at hx
    · cases hx
      exact ⟨rfl, rfl⟩
    · split at hx
      · cases hx
        exact ⟨rfl, rfl⟩
      · cases hx
  sound u a ha := by
    rw [sampleVoters_account ha]
    refine ⟨by decide, fun key b hb => ?_⟩
    rw [(sampleVoter_record _).2] at hb
    cases hb

/-- One holder votes with two buckets and unfreezes one, another holder votes against. -/
def sampleBallots : List GovTx :=
  [sampleGovTx 1 [1] (.freeze 60), sampleGovTx 1 [1] (.freeze 40), sampleGovTx 1 [2] (.freeze 100),
    sampleGovTx 1 [1] (.create sampleProposal), sampleGovTx 1 [1] (.vote ⟨1, 100, some .Yes⟩),
    sampleGovTx 1 [2] (.vote ⟨1, 70, some .No⟩),
    sampleGovTx 2 [1] (.unfreeze (sampleKFIBucket [1] 40))]

theorem votes_within_stake_sample :
    ((runGov samplePlatform .allActive sampleVoters sampleBallots).proposals.proposals.lookup 1).map
      (fun p => (votesOf p .Yes, votesOf p .No)) = some (60, 70) ∧
    VotesWithinStake (runGov samplePlatform .allActive sampleVoters sampleBallots) :=
  ⟨by decide +kernel, votes_within_stake sampleVoters_start (by decide) (by decide +kernel)⟩

/-- A bucket unfrozen twice in the last epoch, next to a vote. -/
def sampleLastEpoch : List GovTx :=
  [sampleGovTx 1 [1] (.freeze 100), sampleGovTx 1 [2] (.freeze 100),
    sampleGovTx 1 [2] (.create sampleProposal), sampleGovTx 1 [2] (.vote ⟨1, 100, some .Yes⟩),
    sampleGovTx DefaultUnstakedEpoch [1] (.unfreeze (sampleKFIBucket [1] 100)),
    sampleGovTx DefaultUnstakedEpoch [1] (.unfreeze (sampleKFIBucket [1] 100))]

/-- **In the last epoch a bucket can be unfrozen again**, as its unstaking epoch is the mark of a
staked bucket: the frozen KFI of its owner becomes negative, and the vote of another holder
exceeds the frozen KFI of all accounts. -/
theorem votes_exceed_stake_at_last_epoch :
    VotingStart sampleVoters ∧
      ¬ VotesWithinStake (runGov samplePlatform .allActive sampleVoters sampleLastEpoch) := by
  refine ⟨sampleVoters_start, fun h => ?_⟩
  have hp : (runGov samplePlatform .allActive sampleVoters sampleLastEpoch).proposals.proposals.lookup
      1 ≠ none := by decide +kernel
  obtain ⟨p, hp⟩ := ne_none_iff_exists'.1 hp
  have hfacts : ((runGov samplePlatform .allActive sampleVoters
      sampleLastEpoch).proposals.proposals.lookup 1).map
        (fun p => (p.proposalStatus, votesOf p .Yes, votesOf p .No)) =
      some (.ActiveProposal, 100, 0) := by decide +kernel
  have hfrozen : allFrozenKFI (runGov samplePlatform .allActive sampleVoters sampleLastEpoch) = 0 := by
    decide +kernel
  rw [hp, map_some, some_inj, Prod.mk.injEq, Prod.mk.injEq] at hfacts
  obtain ⟨hactive, hyes, hno⟩ := hfacts
  have hle := h.total 1 p hp hactive
  rw [hyes, hno, hfrozen] at hle
  revert hle
  decide

end KleverGo.Governance
