import KleverGo.Governance.Buckets

/-!
# Votes when KFI is unfrozen

An unfreeze of KFI shrinks the votes of the holder that are no longer covered.  Before
`FixAuditChangesV5` it scans all active proposals for them.  Since then each account has an index
of its votes, and only proposals up to the last identifier before the fork are scanned.

* `shrunk`: what an unfreeze makes of one proposal.
* `scanActiveProposals_full`: the full scan rewrites every active proposal.
* `processIndexedProposalVotes_eq`: **with an index that is `Indexed`, so do the pass over the
  index and the bounded scan.**
-/

namespace KleverGo.Governance

open FMap List Option

/-! ## The full scan -/

section
variable {fc : ForkController} {update : ProposalVoteUpdate} {total : Int64}
  {σ σ' : ProposalStore}

/-- What an unfreeze makes of a proposal. -/
def shrunk (fc : ForkController) (update : ProposalVoteUpdate) (total : Int64)
    (p : ProposalData) : ProposalData :=
  match p.voters.lookup update.encodedAddr with
  | none => p
  | some voter =>
    if update.frozenBalance < voter.amount then
      if fc.enableSmartContracts then
        { updateVoterAndProposal update voter p with totalStaked := total }
      else updateVoterAndProposal update voter p
    else p

variable {p : ProposalData}

theorem shrunk_of_not_voter (h : p.voters.lookup update.encodedAddr = none) :
    shrunk fc update total p = p := by
  simp only [shrunk, h]

variable {voter : VoteDetail}

theorem shrunk_of_covered (h : p.voters.lookup update.encodedAddr = some voter)
    (hle : voter.amount ≤ update.frozenBalance) : shrunk fc update total p = p := by
  simp only [shrunk, h, Int64.not_lt.2 hle, if_false]

theorem shrunk_of_uncovered (h : p.voters.lookup update.encodedAddr = some voter)
    (hlt : update.frozenBalance < voter.amount) :
    (shrunk fc update total p).voters = (updateVoterAndProposal update voter p).voters := by
  simp only [shrunk, h, hlt, if_true]
  split <;> rfl

theorem shrunk_voter (p : ProposalData) :
    (shrunk fc update total p).voters.lookup update.encodedAddr =
      (p.voters.lookup update.encodedAddr).bind fun voter =>
        if update.frozenBalance < voter.amount then
          if voter.amount ≤ update.unfrozenAmount then none
          else some { voter with amount := voter.amount - update.unfrozenAmount }
        else some voter := by
  cases hv : p.voters.lookup update.encodedAddr with
  | none => rw [shrunk_of_not_voter hv, hv, bind_none]
  | some voter =>
    rw [bind_some]
    by_cases hlt : update.frozenBalance < voter.amount
    · rw [shrunk_of_uncovered hv hlt, if_pos hlt, updateVoterAndProposal]
      split
      · exact AList.lookup_erase _ _
      · exact AList.lookup_insert _
    · rw [shrunk_of_covered hv (Int64.not_lt.1 hlt), hv, if_neg hlt]

variable {addr : Bytes}

theorem shrunk_voter_ne (p : ProposalData) (h : addr ≠ update.encodedAddr) :
    (shrunk fc update total p).voters.lookup addr = p.voters.lookup addr := by
  cases hv : p.voters.lookup update.encodedAddr with
  | none => rw [shrunk_of_not_voter hv]
  | some voter =>
    by_cases hlt : update.frozenBalance < voter.amount
    · rw [shrunk_of_uncovered hv hlt, updateVoterAndProposal]
      split
      · exact AList.lookup_erase_ne h
      · exact AList.lookup_insert_ne h
    · rw [shrunk_of_covered hv (Int64.not_lt.1 hlt)]

theorem shrunk_terms (p : ProposalData) : terms (shrunk fc update total p) = terms p := by
  unfold shrunk
  split
  · rfl
  · split
    · unfold updateVoterAndProposal
      split <;> split <;> rfl
    · rfl

variable {id : Nat}

/-- A shrink rewrites one proposal, and returns the vote that is left. -/
theorem shrinkVoteIfUncovered_eq (fc : ForkController) (hstaked : update.kfiStaked = .ok total)
    (hp : σ.proposals.lookup id = some p) :
    ∃ m, shrinkVoteIfUncovered fc update σ p id =
        .ok ({ σ with proposals := m },
          (shrunk fc update total p).voters.lookup update.encodedAddr) ∧
      Rewrites (shrunk fc update total) {id} σ.proposals m := by
  unfold shrinkVoteIfUncovered
  cases hvoter : p.voters.lookup update.encodedAddr with
  | none =>
    have hsame : shrunk fc update total p = p := shrunk_of_not_voter hvoter
    refine ⟨σ.proposals, ?_, .singleton hp hsame⟩
    rw [hsame, hvoter]
  | some voter =>
    simp only
    split
    · rename_i hlt
      have hshrunk : updateProposalTotalStaked fc update (updateVoterAndProposal update voter p) =
          .ok (shrunk fc update total p) := by
        unfold updateProposalTotalStaked shrunk
        rw [hvoter, hstaked]
        cases fc.enableSmartContracts <;> simp [hlt]
      rw [hshrunk]
      exact ⟨_, rfl, .of_insert hp⟩
    · rename_i hle
      have hsame : shrunk fc update total p = p :=
        shrunk_of_covered hvoter (Int64.not_lt.1 hle)
      refine ⟨σ.proposals, ?_, .singleton hp hsame⟩
      rw [hsame, hvoter]

/-- The identifiers a scan looks at. -/
def scanSet (ids skip : List Nat) (idBound : Option Nat) : Set Nat :=
  { id | id ∈ ids ∧ ¬ (id ∈ skip ∨ ∃ bound ∈ idBound, bound < id) }

/-- A scan of proposals that are stored rewrites those it looks at. -/
theorem scanSteps_eq (fc : ForkController) (hstaked : update.kfiStaked = .ok total)
    (skip : List Nat) (idBound : Option Nat) {ids : List Nat} (hnodup : ids.Nodup)
    (hstored : ∀ id ∈ ids, ∃ p, σ.proposals.lookup id = some p) :
    ∃ m, ids.foldlM (scanStep fc update skip idBound) σ = .ok { σ with proposals := m } ∧
      Rewrites (shrunk fc update total) (scanSet ids skip idBound) σ.proposals m := by
  induction ids generalizing σ with
  | nil =>
    refine ⟨σ.proposals, rfl, ?_⟩
    convert Rewrites.refl (shrunk fc update total) σ.proposals using 1
    ext id
    simp [scanSet]
  | cons id rest ih =>
    rw [nodup_cons] at hnodup
    obtain ⟨p, hp⟩ := hstored id mem_cons_self
    rw [foldlM_cons]
    by_cases hskip : id ∈ skip ∨ ∃ bound ∈ idBound, bound < id
    · obtain ⟨m, hrest, hrewrites⟩ :=
        ih hnodup.2 fun id' h => hstored id' (mem_cons_of_mem _ h)
      refine ⟨m, ?_, ?_⟩
      · rw [scanStep, if_pos hskip]
        exact hrest
      convert hrewrites using 1
      ext id'
      simp only [scanSet, mem_cons, Set.mem_ofPred_eq]
      constructor
      · rintro ⟨heq | hin, hlook⟩
        · exact absurd (heq ▸ hskip) hlook
        · exact ⟨hin, hlook⟩
      · exact fun h => ⟨.inr h.1, h.2⟩
    · obtain ⟨m1, hshrink, hone⟩ := shrinkVoteIfUncovered_eq fc hstaked hp
      have hstored' : ∀ id' ∈ rest, ∃ q, m1.lookup id' = some q := by
        intro id' hid'
        have hne : id' ∉ ({id} : Set Nat) := fun heq => hnodup.1 (Set.mem_singleton_iff.1 heq ▸ hid')
        rw [hone.outside id' hne]
        exact hstored id' (mem_cons_of_mem _ hid')
      obtain ⟨m, hrest, hrewrites⟩ := ih (σ := { σ with proposals := m1 }) hnodup.2 hstored'
      refine ⟨m, ?_, ?_⟩
      · rw [scanStep, if_neg hskip, getProposalData, hp]
        simp only [orError, hshrink, bind, Except.bind, pure, Except.pure]
        exact hrest
      have hdisj : Disjoint ({id} : Set Nat) (scanSet rest skip idBound) :=
        Set.disjoint_singleton_left.2 fun hmem => hnodup.1 hmem.1
      convert hone.trans hrewrites hdisj using 1
      ext id'
      simp only [scanSet, mem_cons, Set.mem_ofPred_eq, Set.mem_union, Set.mem_singleton_iff]
      constructor
      · rintro ⟨heq | hin, hlook⟩
        · exact .inl heq
        · exact .inr ⟨hin, hlook⟩
      · rintro (rfl | h)
        · exact ⟨.inl rfl, hskip⟩
        · exact ⟨.inr h.1, h.2⟩

theorem Buckets.stored (h : Buckets σ) (hid : id ∈ scannedIDs σ.controller) :
    ∃ p, σ.proposals.lookup id = some p := by
  rw [(scannedIDs_perm _).mem_iff, h.active] at hid
  obtain ⟨p, hp, -⟩ := hid
  exact ⟨p, hp⟩

theorem Buckets.scanned_nodup (h : Buckets σ) : (scannedIDs σ.controller).Nodup :=
  (scannedIDs_perm _).nodup_iff.2 h.nodup

def activeSet (σ : ProposalStore) : Set Nat := { id | id ∈ activeProposalIDs σ.controller }

/-- **The full scan** rewrites every active proposal. -/
theorem scanActiveProposals_full (fc : ForkController) (h : Buckets σ)
    (hstaked : update.kfiStaked = .ok total) :
    ∃ m, scanActiveProposals fc update σ [] none = .ok { σ with proposals := m } ∧
      Rewrites (shrunk fc update total) (activeSet σ) σ.proposals m := by
  obtain ⟨m, hscan, hrewrites⟩ :=
    scanSteps_eq fc hstaked [] none h.scanned_nodup fun id hid => h.stored hid
  refine ⟨m, hscan, ?_⟩
  convert hrewrites using 1
  ext id
  simp [scanSet, activeSet, (scannedIDs_perm _).mem_iff]

/-! ## The index -/

/-- The last identifier that may have a vote without an entry. -/
def voteIDBound (σ : ProposalStore) : Nat := σ.preForkVotes.getD σ.controller.proposalCount

/-- The index names the votes on active proposals above the bound, and every entry that names an
active proposal has the amount recorded there. -/
structure Indexed (σ : ProposalStore) : Prop where
  complete : ∀ id p, σ.proposals.lookup id = some p → p.proposalStatus = .ActiveProposal →
    voteIDBound σ < id → ∀ addr v, p.voters.lookup addr = some v →
      ∃ entry ∈ getAccountProposalVotes σ addr, entry.proposalID = id
  exact : ∀ addr, ∀ entry ∈ getAccountProposalVotes σ addr, ∀ p,
    σ.proposals.lookup entry.proposalID = some p → p.proposalStatus = .ActiveProposal →
      ∃ v, p.voters.lookup addr = some v ∧ v.amount = entry.amount
  nodup : ∀ addr, ((getAccountProposalVotes σ addr).map (·.proposalID)).Nodup
  positive : ∀ addr, ∀ entry ∈ getAccountProposalVotes σ addr, 0 < entry.amount
  known : ∀ addr, ∀ entry ∈ getAccountProposalVotes σ addr,
    entry.proposalID ≤ σ.controller.proposalCount

/-- The entry an unfreeze leaves: none for a proposal that is not active or a vote that is gone. -/
def reindexed (fc : ForkController) (update : ProposalVoteUpdate) (total : Int64)
    (activeIDs : List Nat) (proposals : FMap Nat ProposalData) (entry : ProposalVoteIndexEntry) :
    Option ProposalVoteIndexEntry :=
  if entry.proposalID ∈ activeIDs then
    ((proposals.lookup entry.proposalID).bind fun p =>
      (shrunk fc update total p).voters.lookup update.encodedAddr).map fun v =>
        ⟨entry.proposalID, v.amount⟩
  else none

/-- The entry has the amount recorded on the proposal. -/
def Records (addr : Bytes) (proposals : FMap Nat ProposalData) (entry : ProposalVoteIndexEntry) :
    Prop :=
  ∃ p v, proposals.lookup entry.proposalID = some p ∧ p.voters.lookup addr = some v ∧
    v.amount = entry.amount

variable {activeIDs : List Nat} {entry : ProposalVoteIndexEntry}

theorem rebuildIndexEntry_eq (fc : ForkController) (hstaked : update.kfiStaked = .ok total)
    (hexact : entry.proposalID ∈ activeIDs → Records update.encodedAddr σ.proposals entry) :
    ∃ m, rebuildIndexEntry fc update activeIDs σ entry =
        .ok ({ σ with proposals := m }, reindexed fc update total activeIDs σ.proposals entry) ∧
      Rewrites (shrunk fc update total) { id | id ∈ activeIDs ∧ entry.proposalID = id }
        σ.proposals m := by
  unfold rebuildIndexEntry reindexed
  by_cases hactive : entry.proposalID ∈ activeIDs
  · have hset : { id | id ∈ activeIDs ∧ entry.proposalID = id } = {entry.proposalID} := by
      ext id
      simp only [Set.mem_ofPred_eq, Set.mem_singleton_iff]
      constructor
      · exact fun h => h.2.symm
      · rintro rfl
        exact ⟨hactive, rfl⟩
    obtain ⟨p, v, hp, hv, hamount⟩ := hexact hactive
    obtain ⟨m, hshrink, hrewrites⟩ := shrinkVoteIfUncovered_eq fc hstaked hp
    rw [if_neg (not_not.2 hactive), if_pos hactive, hset, hp, bind_some]
    by_cases hcovered : entry.amount ≤ update.frozenBalance
    · -- a covered entry is kept without a look at the proposal, which would not change
      have hsame : shrunk fc update total p = p := shrunk_of_covered hv (hamount ▸ hcovered)
      refine ⟨σ.proposals, ?_, .singleton hp hsame⟩
      rw [if_pos hcovered, hsame, hv, map_some, hamount]
    · refine ⟨m, ?_, hrewrites⟩
      rw [if_neg hcovered]
      simp only [hshrink, bind, Except.bind, pure, Except.pure]
  · refine ⟨σ.proposals, ?_, ?_⟩
    · rw [if_pos hactive, if_neg hactive]
    refine (Rewrites.refl _ _).of_fixed fun id q _ hne => ?_
    refine absurd ?_ hne
    simp only [Set.mem_empty_iff_false, Set.mem_ofPred_eq, false_iff]
    rintro ⟨hid, rfl⟩
    exact hactive hid

variable {entries : List ProposalVoteIndexEntry}

/-- The pass over the index rewrites the active proposals it names. -/
theorem indexSteps_eq (fc : ForkController) (hstaked : update.kfiStaked = .ok total)
    (hnodup : (entries.map (·.proposalID)).Nodup)
    (hexact : ∀ entry ∈ entries, entry.proposalID ∈ activeIDs →
      Records update.encodedAddr σ.proposals entry)
    (seen : List Nat) (hseen : ∀ entry ∈ entries, entry.proposalID ∉ seen)
    (kept : List ProposalVoteIndexEntry) :
    ∃ m skip, entries.foldlM (indexStep fc update activeIDs) (σ, seen, kept) =
        .ok ({ σ with proposals := m }, skip,
          kept ++ entries.filterMap (reindexed fc update total activeIDs σ.proposals)) ∧
      (∀ id, id ∈ skip ↔ id ∈ seen ∨ ∃ entry ∈ entries, entry.proposalID = id) ∧
      Rewrites (shrunk fc update total)
        { id | id ∈ activeIDs ∧ ∃ entry ∈ entries, entry.proposalID = id } σ.proposals m := by
  induction entries generalizing σ seen kept with
  | nil =>
    refine ⟨σ.proposals, seen, by simp [pure, Except.pure], by simp, ?_⟩
    convert Rewrites.refl (shrunk fc update total) σ.proposals using 1
    ext id
    simp
  | cons entry rest ih =>
    rw [map_cons, nodup_cons] at hnodup
    obtain ⟨m1, hrebuild, hone⟩ :=
      rebuildIndexEntry_eq fc hstaked (hexact entry mem_cons_self)
    have hother : ∀ e ∈ rest, m1.lookup e.proposalID = σ.proposals.lookup e.proposalID := by
      intro e he
      refine hone.outside _ ?_
      rintro ⟨-, heq⟩
      exact hnodup.1 (heq ▸ mem_map_of_mem he)
    have hexact1 : ∀ e ∈ rest, e.proposalID ∈ activeIDs → Records update.encodedAddr m1 e := by
      intro e he hid
      unfold Records
      rw [hother e he]
      exact hexact e (mem_cons_of_mem _ he) hid
    have hseen1 : ∀ e ∈ rest, e.proposalID ∉ entry.proposalID :: seen := by
      intro e he hmem
      rcases mem_cons.1 hmem with heq | hmem
      · exact hnodup.1 (heq ▸ mem_map_of_mem he)
      · exact hseen e (mem_cons_of_mem _ he) hmem
    obtain ⟨m, skip, hrest, hskip, hrewrites⟩ :=
      ih (σ := { σ with proposals := m1 }) hnodup.2 hexact1 _ hseen1
        (kept ++ (reindexed fc update total activeIDs σ.proposals entry).toList)
    refine ⟨m, skip, ?_, ?_, ?_⟩
    · rw [foldlM_cons, indexStep, if_neg (hseen entry mem_cons_self), hrebuild]
      simp only [bind, Except.bind, pure, Except.pure]
      refine hrest.trans ?_
      congr 3
      rw [filterMap_cons]
      have hsame : rest.filterMap (reindexed fc update total activeIDs m1) =
          rest.filterMap (reindexed fc update total activeIDs σ.proposals) := by
        refine filterMap_congr fun e he => ?_
        unfold reindexed
        rw [hother e he]
      rw [hsame]
      cases reindexed fc update total activeIDs σ.proposals entry <;> simp
    · intro id
      rw [hskip]
      simp only [mem_cons, exists_eq_or_imp]
      constructor
      · rintro ((rfl | h) | h)
        · exact .inr (.inl rfl)
        · exact .inl h
        · exact .inr (.inr h)
      · rintro (h | rfl | h)
        · exact .inl (.inr h)
        · exact .inl (.inl rfl)
        · exact .inr h
    · have hdisj : Disjoint { id | id ∈ activeIDs ∧ entry.proposalID = id }
          { id | id ∈ activeIDs ∧ ∃ e ∈ rest, e.proposalID = id } := by
        rw [Set.disjoint_left]
        rintro id ⟨-, rfl⟩ ⟨-, e, he, heq⟩
        exact hnodup.1 (heq ▸ mem_map_of_mem he)
      convert hone.trans hrewrites hdisj using 1
      ext id
      simp only [mem_cons, exists_eq_or_imp, Set.mem_ofPred_eq, Set.mem_union]
      tauto

theorem getAccountProposalVotes_set (σ : ProposalStore) (addr addr' : Bytes)
    (entries : List ProposalVoteIndexEntry) :
    getAccountProposalVotes { σ with votes :=
        if entries = [] then σ.votes.erase addr else σ.votes.insert addr entries } addr' =
      if addr' = addr then entries else getAccountProposalVotes σ addr' := by
  unfold getAccountProposalVotes
  by_cases hempty : entries = []
  · rw [if_pos hempty, lookup_erase_eq]
    split
    · rw [hempty, getD_none]
    · rfl
  · rw [if_neg hempty, lookup_insert_eq]
    split
    · rw [getD_some]
    · rfl

variable {kept : List ProposalVoteIndexEntry}

theorem writeIndex_eq
    (h : kept = getAccountProposalVotes σ addr ∨ ∀ entry ∈ kept, 0 < entry.amount) :
    ∃ votes, writeIndex σ addr (getAccountProposalVotes σ addr) kept =
        .ok { σ with votes := votes } ∧
      ∀ addr', getAccountProposalVotes { σ with votes := votes } addr' =
        if addr' = addr then kept else getAccountProposalVotes σ addr' := by
  unfold writeIndex
  by_cases hsame : kept = getAccountProposalVotes σ addr
  · refine ⟨σ.votes, by rw [if_pos hsame], fun addr' => ?_⟩
    split
    · rename_i heq
      rw [heq, hsame]
    · rfl
  · refine ⟨_, ?_, fun addr' => getAccountProposalVotes_set σ addr addr' kept⟩
    have hpos : ¬ ∃ entry ∈ kept, entry.amount ≤ 0 := by
      rintro ⟨entry, hentry, hle⟩
      exact Int64.not_le.2 (h.resolve_left hsame entry hentry) hle
    rw [if_neg hsame, setAccountProposalVotes, reject, if_neg hpos]
    rfl

theorem writeIndex_positive (h : writeIndex σ addr entries kept = .ok σ') :
    kept = entries ∨ ∀ entry ∈ kept, 0 < entry.amount := by
  unfold writeIndex at h
  split at h
  · rename_i hsame
    exact .inl hsame
  · exact .inr (setAccountProposalVotes_spec h).1

/-- The index an unfreeze leaves to its sender. -/
def keptEntries (fc : ForkController) (update : ProposalVoteUpdate) (total : Int64)
    (σ : ProposalStore) : List ProposalVoteIndexEntry :=
  (getAccountProposalVotes σ update.encodedAddr).filterMap
    (reindexed fc update total (activeProposalIDs σ.controller) σ.proposals)

/-- What the indexed handling of an unfreeze does: every active proposal is rewritten, and the
entries of the sender are rebuilt. -/
structure Reindexes (fc : ForkController) (update : ProposalVoteUpdate) (total : Int64)
    (σ σ' : ProposalStore) : Prop where
  controller : σ'.controller = σ.controller
  bound : σ'.preForkVotes = some (voteIDBound σ)
  proposals : Rewrites (shrunk fc update total) (activeSet σ) σ.proposals σ'.proposals
  votes : ∀ addr, getAccountProposalVotes σ' addr =
    if addr = update.encodedAddr then keptEntries fc update total σ
    else getAccountProposalVotes σ addr
  positive : ∀ entry ∈ keptEntries fc update total σ, 0 < entry.amount

theorem Indexed.records (hb : Buckets σ) (hi : Indexed σ)
    (hentry : entry ∈ getAccountProposalVotes σ addr)
    (hactive : entry.proposalID ∈ activeProposalIDs σ.controller) :
    Records addr σ.proposals entry := by
  obtain ⟨p, hp, hstatus⟩ := (hb.active _).1 hactive
  obtain ⟨v, hv, hamount⟩ := hi.exact addr entry hentry p hp hstatus
  exact ⟨p, v, hp, hv, hamount⟩

/-- The proposals the pass over the index looks at. -/
def indexSet (σ : ProposalStore) (addr : Bytes) : Set Nat :=
  { id | id ∈ activeProposalIDs σ.controller ∧
    ∃ entry ∈ getAccountProposalVotes σ addr, entry.proposalID = id }

/-- The two passes together rewrite every active proposal: one that neither of them looks at
has no vote of the sender. -/
theorem passes_cover (haddr : addr = update.encodedAddr) (hb : Buckets σ) (hi : Indexed σ)
    {skip : List Nat} {m1 m2 : FMap Nat ProposalData}
    (hskip : ∀ id, id ∈ skip ↔ ∃ entry ∈ getAccountProposalVotes σ addr, entry.proposalID = id)
    (h1 : Rewrites (shrunk fc update total) (indexSet σ addr) σ.proposals m1)
    (h2 : Rewrites (shrunk fc update total) (scanSet (scannedIDs σ.controller) skip
      (some (voteIDBound σ))) m1 m2) :
    Rewrites (shrunk fc update total) (activeSet σ) σ.proposals m2 := by
  have hdisj : Disjoint (indexSet σ addr)
      (scanSet (scannedIDs σ.controller) skip (some (voteIDBound σ))) := by
    rw [Set.disjoint_left]
    rintro id ⟨-, hentry⟩ ⟨-, hlook⟩
    exact hlook (.inl ((hskip id).2 hentry))
  refine (h1.trans h2 hdisj).of_fixed fun id p hp hne => ?_
  refine shrunk_of_not_voter ?_
  by_contra hvoter
  obtain ⟨v, hv⟩ := ne_none_iff_exists'.1 hvoter
  refine hne ⟨fun h => ?_, fun h => ?_⟩
  · rcases h with h | h
    · exact h.1
    · exact (scannedIDs_perm _).mem_iff.1 h.1
  obtain ⟨q, hq, hstatus⟩ := (hb.active id).1 h
  rw [hp] at hq
  cases hq
  by_cases hentry : ∃ entry ∈ getAccountProposalVotes σ addr, entry.proposalID = id
  · exact .inl ⟨h, hentry⟩
  right
  refine ⟨(scannedIDs_perm _).mem_iff.2 h, ?_⟩
  rintro (hin | ⟨bound, hbound, hlt⟩)
  · exact hentry ((hskip id).1 hin)
  · cases hbound
    exact hentry (hi.complete id p hp hstatus hlt _ v (haddr ▸ hv))

/-- **The indexed handling succeeds if the rebuilt index may be stored**, and then it rewrites
every active proposal. -/
theorem processIndexedProposalVotes_eq (fc : ForkController) (hb : Buckets σ) (hi : Indexed σ)
    (hstaked : update.kfiStaked = .ok total) :
    (∃ σ', processIndexedProposalVotes fc update σ = .ok σ' ∧ Reindexes fc update total σ σ') ∨
    (∃ e, processIndexedProposalVotes fc update σ = .error e) ∧
      ¬ (keptEntries fc update total σ = getAccountProposalVotes σ update.encodedAddr ∨
        ∀ entry ∈ keptEntries fc update total σ, 0 < entry.amount) := by
  obtain ⟨m1, skip, hpass, hskip, hrewrites1⟩ := indexSteps_eq fc hstaked
    (hi.nodup update.encodedAddr) (fun entry hentry => hi.records hb hentry) []
    (fun _ _ => not_mem_nil) []
  rw [nil_append, ← keptEntries] at hpass
  unfold processIndexedProposalVotes
  simp only [hpass, bind, Except.bind]
  cases hwrite : writeIndex { σ with proposals := m1 } update.encodedAddr
      (getAccountProposalVotes σ update.encodedAddr) (keptEntries fc update total σ) with
  | error e =>
    right
    refine ⟨⟨e, rfl⟩, fun hkept => ?_⟩
    obtain ⟨votes, hok, -⟩ := writeIndex_eq (σ := { σ with proposals := m1 }) hkept
    exact absurd (hwrite.symm.trans hok) (by simp)
  | ok σ2 =>
    left
    have hkept := writeIndex_positive hwrite
    obtain ⟨votes, hok, hvotes⟩ := writeIndex_eq (σ := { σ with proposals := m1 }) hkept
    have hσ2 : σ2 = { σ with proposals := m1, votes := votes } := by
      have := hwrite.symm.trans hok
      cases this
      rfl
    subst hσ2
    obtain ⟨m2, hscan, hrewrites2⟩ := scanSteps_eq fc (σ := { σ with
      proposals := m1, votes := votes, preForkVotes := some (voteIDBound σ) }) hstaked skip
      (some (voteIDBound σ)) hb.scanned_nodup (fun id hid => by
        obtain ⟨p, hp⟩ := hb.stored hid
        refine ne_none_iff_exists'.1 fun hnone => ?_
        rw [(hrewrites1.lookup_eq_none_iff id).1 hnone] at hp
        cases hp)
    refine ⟨{ σ with proposals := m2, votes := votes, preForkVotes := some (voteIDBound σ) }, ?_,
      ⟨rfl, rfl, passes_cover rfl hb hi (fun id => by simp [hskip]) hrewrites1 hrewrites2, hvotes, ?_⟩⟩
    · simp only [preForkVoteIDBound_eq]
      exact hscan
    · rcases hkept with hsame | hpos
      · rw [hsame]
        exact hi.positive update.encodedAddr
      · exact hpos

end

end KleverGo.Governance
