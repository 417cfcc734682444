import KleverGo.Governance.Unfreeze

/-!
# The vote index is faithful

* `StoreStep.indexed`: every call after the fork keeps the index.
* `Unindexed.indexed`: at the fork an empty index will do, as every proposal is below the bound.
* `vote_index_faithful`: **in every state reached across the fork, the index and the bounded scan
  change the proposals as the full scan does, and leave exact entries.**
-/

namespace KleverGo.Governance

open List Option

section
variable {fc : ForkController} {update : ProposalVoteUpdate} {total : Int64}
  {σ σ' : ProposalStore}

variable {entry : ProposalVoteIndexEntry}

theorem mem_keptEntries :
    entry ∈ keptEntries fc update total σ ↔
      entry.proposalID ∈ activeProposalIDs σ.controller ∧
      (∃ old ∈ getAccountProposalVotes σ update.encodedAddr, old.proposalID = entry.proposalID) ∧
      ∃ p v, σ.proposals.lookup entry.proposalID = some p ∧
        (shrunk fc update total p).voters.lookup update.encodedAddr = some v ∧
        v.amount = entry.amount := by
  unfold keptEntries
  rw [mem_filterMap]
  constructor
  · rintro ⟨old, hold, hentry⟩
    unfold reindexed at hentry
    split at hentry
    · rename_i hactive
      rw [map_eq_some_iff] at hentry
      obtain ⟨v, hv, rfl⟩ := hentry
      rw [bind_eq_some_iff] at hv
      obtain ⟨p, hp, hv⟩ := hv
      exact ⟨hactive, ⟨old, hold, rfl⟩, p, v, hp, hv, rfl⟩
    · cases hentry
  · rintro ⟨hactive, ⟨old, hold, hid⟩, p, v, hp, hv, hamount⟩
    refine ⟨old, hold, ?_⟩
    rw [reindexed, hid, if_pos hactive, hp, bind_some, hv, map_some, hamount]

theorem keptEntries_nodup (h : Indexed σ) :
    ((keptEntries fc update total σ).map (·.proposalID)).Nodup := by
  have hsub : ∀ entries : List ProposalVoteIndexEntry,
      ((entries.filterMap (reindexed fc update total (activeProposalIDs σ.controller)
        σ.proposals)).map (·.proposalID)).Sublist (entries.map (·.proposalID)) := by
    intro entries
    induction entries with
    | nil => exact Sublist.refl _
    | cons entry rest ih =>
      rw [filterMap_cons]
      split
      · exact ih.cons _
      rename_i kept hkept
      have hid : kept.proposalID = entry.proposalID := by
        unfold reindexed at hkept
        split at hkept
        · obtain ⟨v, -, rfl⟩ := map_eq_some_iff.1 hkept
          rfl
        · cases hkept
      rw [map_cons, map_cons, hid]
      exact ih.cons_cons _
  exact (h.nodup update.encodedAddr).sublist (hsub _)

/-! ## Every call keeps the index -/

theorem Reindexes.terms (h : Reindexes fc update total σ σ') : SameTerms σ σ' := by
  refine ⟨h.controller, fun id => ?_⟩
  by_cases hid : id ∈ activeSet σ
  · rw [h.proposals.inside id hid, Option.map_map]
    exact Option.map_congr fun p _ => shrunk_terms p
  · rw [h.proposals.outside id hid]

variable {id : Nat}

/-- An active proposal after the unfreeze was active before, and is what the unfreeze made of it. -/
theorem Reindexes.active_back (h : Reindexes fc update total σ σ') (hb : Buckets σ)
    {p' : ProposalData} (hp' : σ'.proposals.lookup id = some p')
    (hstatus : p'.proposalStatus = .ActiveProposal) :
    ∃ p, σ.proposals.lookup id = some p ∧ p.proposalStatus = .ActiveProposal ∧
      p' = shrunk fc update total p := by
  have hactive := (h.terms.buckets hb).active id |>.2 ⟨p', hp', hstatus⟩
  rw [h.controller] at hactive
  obtain ⟨p, hp, hpstatus⟩ := (hb.active id).1 hactive
  have hinside := h.proposals.inside id hactive
  rw [hp', hp, map_some] at hinside
  exact ⟨p, hp, hpstatus, Option.some.inj hinside⟩

theorem Reindexes.indexed (h : Reindexes fc update total σ σ') (hb : Buckets σ) (hi : Indexed σ) :
    Indexed σ' := by
  have hbound : voteIDBound σ' = voteIDBound σ := by
    rw [voteIDBound, h.bound, getD_some]
  refine ⟨fun id p' hp' hstatus hlt addr v hv => ?_, fun addr entry hentry p' hp' hstatus => ?_,
    fun addr => ?_, fun addr => ?_, fun addr entry hentry => ?_⟩
  · obtain ⟨p, hp, hpstatus, rfl⟩ := h.active_back hb hp' hstatus
    rw [hbound] at hlt
    rw [h.votes]
    split
    · rename_i haddr
      subst haddr
      have hv' := hv
      rw [shrunk_voter, bind_eq_some_iff] at hv'
      obtain ⟨v0, hv0, -⟩ := hv'
      obtain ⟨entry, hentry, hid⟩ := hi.complete id p hp hpstatus hlt _ v0 hv0
      refine ⟨⟨id, v.amount⟩, mem_keptEntries.2 ⟨?_, ⟨entry, hentry, hid⟩, p, v, hp, hv, rfl⟩, rfl⟩
      exact (hb.active id).2 ⟨p, hp, hpstatus⟩
    · rename_i haddr
      rw [shrunk_voter_ne p haddr] at hv
      exact hi.complete id p hp hpstatus hlt addr v hv
  · obtain ⟨p, hp, hpstatus, rfl⟩ := h.active_back hb hp' hstatus
    rw [h.votes] at hentry
    split at hentry
    · rename_i haddr
      subst haddr
      obtain ⟨-, -, q, v, hq, hv, hamount⟩ := mem_keptEntries.1 hentry
      rw [hp] at hq
      cases hq
      exact ⟨v, hv, hamount⟩
    · rename_i haddr
      rw [shrunk_voter_ne p haddr]
      exact hi.exact addr entry hentry p hp hpstatus
  · rw [h.votes]
    split
    · exact keptEntries_nodup hi
    · exact hi.nodup addr
  · rw [h.votes]
    split
    · exact h.positive
    · exact hi.positive addr
  · rw [h.controller]
    rw [h.votes] at hentry
    split at hentry
    · obtain ⟨-, ⟨old, hold, hid⟩, -⟩ := mem_keptEntries.1 hentry
      rw [← hid]
      exact hi.known _ old hold
    · exact hi.known addr entry hentry

variable {entries : List ProposalVoteIndexEntry} {amount : Int64}

theorem mem_upsertProposalVoteIndex (hnodup : (entries.map (·.proposalID)).Nodup) :
    entry ∈ upsertProposalVoteIndex entries id amount ↔
      entry = ⟨id, amount⟩ ∨ (entry ∈ entries ∧ entry.proposalID ≠ id) := by
  induction entries with
  | nil => simp [upsertProposalVoteIndex]
  | cons first rest ih =>
    rw [map_cons, nodup_cons] at hnodup
    unfold upsertProposalVoteIndex
    split
    · rename_i hid
      have hrest : ∀ e ∈ rest, e.proposalID ≠ id := by
        rintro e he rfl
        exact hnodup.1 (hid ▸ mem_map_of_mem he)
      rw [mem_cons, mem_cons]
      constructor
      · rintro (h | h)
        · exact .inl h
        · exact .inr ⟨.inr h, hrest entry h⟩
      · rintro (h | ⟨rfl | h, hne⟩)
        · exact .inl h
        · exact absurd hid hne
        · exact .inr h
    · rename_i hid
      rw [mem_cons, ih hnodup.2, mem_cons]
      constructor
      · rintro (rfl | h | h)
        · exact .inr ⟨.inl rfl, hid⟩
        · exact .inl h
        · exact .inr ⟨.inr h.1, h.2⟩
      · rintro (h | ⟨h | h, hne⟩)
        · exact .inr (.inl h)
        · exact .inl h
        · exact .inr (.inr ⟨h, hne⟩)

theorem upsertProposalVoteIndex_nodup (id : Nat) (amount : Int64)
    (hnodup : (entries.map (·.proposalID)).Nodup) :
    ((upsertProposalVoteIndex entries id amount).map (·.proposalID)).Nodup := by
  induction entries with
  | nil => simp [upsertProposalVoteIndex]
  | cons first rest ih =>
    rw [map_cons, nodup_cons] at hnodup
    unfold upsertProposalVoteIndex
    split
    · rename_i hid
      rw [map_cons, nodup_cons]
      exact ⟨hid ▸ hnodup.1, hnodup.2⟩
    rename_i hid
    rw [map_cons, nodup_cons]
    refine ⟨fun hmem => ?_, ih hnodup.2⟩
    obtain ⟨entry, hentry, heq⟩ := mem_map.1 hmem
    rcases (mem_upsertProposalVoteIndex hnodup.2).1 hentry with rfl | ⟨h, -⟩
    · exact hid heq.symm
    · exact hnodup.1 (heq ▸ mem_map_of_mem h)

theorem dropInactiveProposalVotes_nodup (hnodup : (entries.map (·.proposalID)).Nodup)
    (c : ProposalController) :
    ((dropInactiveProposalVotes entries c).map (·.proposalID)).Nodup :=
  hnodup.sublist (Sublist.map _ filter_sublist)

/-- The index after a vote: the entries of active proposals, with the vote in it. -/
def votedEntries (σ : ProposalStore) (addr : Bytes) (id : Nat) (amount : Int64) :
    List ProposalVoteIndexEntry :=
  upsertProposalVoteIndex
    (dropInactiveProposalVotes (getAccountProposalVotes σ addr) σ.controller) id amount

variable {addr : Bytes}

theorem addVoterToIndex_spec (h : addVoterToIndex σ addr id amount = .ok σ') :
    (∃ votes, σ' = { σ with votes := votes }) ∧
    ∀ addr', getAccountProposalVotes σ' addr' =
      if addr' = addr then votedEntries σ addr id amount else getAccountProposalVotes σ addr' := by
  unfold addVoterToIndex at h
  simp only at h
  split at h
  · rename_i hsame
    cases h
    refine ⟨⟨σ.votes, rfl⟩, fun addr' => ?_⟩
    split
    · rename_i haddr
      rw [haddr]
      exact hsame.symm
    · rfl
  · rw [(setAccountProposalVotes_spec h).2]
    exact ⟨⟨_, rfl⟩, fun addr' => getAccountProposalVotes_set σ addr addr' _⟩

theorem mem_votedEntries (hi : Indexed σ) :
    entry ∈ votedEntries σ addr id amount ↔ entry = ⟨id, amount⟩ ∨
      entry ∈ getAccountProposalVotes σ addr ∧
        entry.proposalID ∈ activeProposalIDs σ.controller ∧ entry.proposalID ≠ id := by
  rw [votedEntries, mem_upsertProposalVoteIndex (dropInactiveProposalVotes_nodup (hi.nodup addr) _),
    dropInactiveProposalVotes, mem_filter, decide_eq_true_eq, and_assoc]

theorem castVote_voters (p : ProposalData) (addr addr' : Bytes) (type : VoteType)
    (amount timestamp totalStaked : Int64) :
    (castVote p addr type amount timestamp totalStaked).voters.lookup addr' =
      if addr' = addr then some ⟨type, amount, timestamp⟩ else p.voters.lookup addr' := by
  have hvoters : (processExistingVote p addr type).1.voters = p.voters := by
    unfold processExistingVote
    split
    · rfl
    · split <;> rfl
  refine (FMap.lookup_insert_eq _ _ _ _).trans ?_
  split
  · rfl
  · change (processExistingVote p addr type).1.voters.lookup addr' = _
    rw [hvoters]

theorem Indexed.voted (hb : Buckets σ) (hi : Indexed σ) {p : ProposalData} {type : VoteType}
    {timestamp totalStaked : Int64} (hp : σ.proposals.lookup id = some p)
    (hstatus : p.proposalStatus = .ActiveProposal) (hpos : 0 < amount)
    (h : addVoterToIndex (setProposal σ id (castVote p addr type amount timestamp totalStaked))
      addr id amount = .ok σ') :
    Indexed σ' := by
  obtain ⟨⟨votes, rfl⟩, hvotes⟩ := addVoterToIndex_spec h
  have hmem : ∀ addr' entry, entry ∈ getAccountProposalVotes
      { setProposal σ id (castVote p addr type amount timestamp totalStaked) with votes := votes }
        addr' ↔
      if addr' = addr then entry = ⟨id, amount⟩ ∨ entry ∈ getAccountProposalVotes σ addr ∧
        entry.proposalID ∈ activeProposalIDs σ.controller ∧ entry.proposalID ≠ id
      else entry ∈ getAccountProposalVotes σ addr' := by
    intro addr' entry
    rw [hvotes]
    split
    · exact mem_votedEntries (σ := σ) hi
    · rfl
  have hlookup : ∀ id', (setProposal σ id
      (castVote p addr type amount timestamp totalStaked)).proposals.lookup id' =
      if id' = id then some (castVote p addr type amount timestamp totalStaked)
      else σ.proposals.lookup id' := fun id' => FMap.lookup_insert_eq _ _ _ _
  refine ⟨fun id' p' hp' hstatus' hlt addr' v hv => ?_,
    fun addr' entry hentry p' hp' hstatus' => ?_, fun addr' => ?_, fun addr' entry hentry => ?_,
    fun addr' entry hentry => ?_⟩
  · simp only [hmem]
    rw [hlookup] at hp'
    split at hp'
    · rename_i hid
      cases hp'
      rw [castVote_voters] at hv
      split
      · exact ⟨⟨id, amount⟩, .inl rfl, hid.symm⟩
      · rename_i haddr
        rw [if_neg haddr] at hv
        exact hid ▸ hi.complete id p hp hstatus (hid ▸ hlt) addr' v hv
    · rename_i hid
      obtain ⟨entry, hentry, rfl⟩ := hi.complete id' p' hp' hstatus' hlt addr' v hv
      split
      · rename_i haddr
        refine ⟨entry, .inr ⟨haddr ▸ hentry, ?_, hid⟩, rfl⟩
        exact (hb.active _).2 ⟨p', hp', hstatus'⟩
      · exact ⟨entry, hentry, rfl⟩
  · rw [hmem] at hentry
    rw [hlookup] at hp'
    split at hp'
    · rename_i hid
      cases hp'
      rw [castVote_voters]
      split at hentry
      · rename_i haddr
        rw [if_pos haddr]
        rcases hentry with rfl | ⟨-, -, hne⟩
        · exact ⟨_, rfl, rfl⟩
        · exact absurd hid hne
      · rename_i haddr
        rw [if_neg haddr]
        exact hi.exact addr' entry hentry p (hid ▸ hp) hstatus
    · rename_i hid
      split at hentry
      · rename_i haddr
        rcases hentry with rfl | ⟨hold, -, -⟩
        · exact absurd rfl hid
        · rw [haddr]
          exact hi.exact addr entry hold p' hp' hstatus'
      · exact hi.exact addr' entry hentry p' hp' hstatus'
  · rw [hvotes]
    split
    · exact upsertProposalVoteIndex_nodup _ _ (dropInactiveProposalVotes_nodup (hi.nodup addr) _)
    · exact hi.nodup addr'
  · rw [hmem] at hentry
    split at hentry
    · rcases hentry with rfl | ⟨hold, -, -⟩
      · exact hpos
      · exact hi.positive addr entry hold
    · exact hi.positive addr' entry hentry
  · rw [hmem] at hentry
    split at hentry
    · rcases hentry with rfl | ⟨hold, -, -⟩
      · exact hb.counted id p hp
      · exact hi.known addr entry hold
    · exact hi.known addr' entry hentry

/-- **Every call after the fork keeps the index.** -/
theorem StoreStep.indexed (hstep : StoreStep fc σ σ') (hfork : fc.fixAuditChangesV5 = true)
    (hb : Buckets σ) (hi : Indexed σ) : Indexed σ' := by
  cases hstep with
  | kept => exact hi
  | created ctx staking tc sender =>
    rw [finalizeProposal_eq, if_pos hfork]
    have hlookup : ∀ id, (σ.proposals.insert (σ.controller.proposalCount + 1)
        (newProposal ctx staking.totalStaked tc sender)).lookup id =
        if id = σ.controller.proposalCount + 1 then
          some (newProposal ctx staking.totalStaked tc sender)
        else σ.proposals.lookup id := fun id => FMap.lookup_insert_eq _ _ _ _
    refine ⟨fun id p hp hstatus hlt addr v hv => ?_, fun addr entry hentry p hp hstatus => ?_,
      hi.nodup, hi.positive, fun addr entry hentry => ?_⟩
    · rw [hlookup] at hp
      split at hp
      · -- nobody has voted on the new proposal
        cases hp
        cases hv
      · exact hi.complete id p hp hstatus hlt addr v hv
    · have hknown := hi.known addr entry hentry
      rw [hlookup, if_neg (by omega)] at hp
      exact hi.exact addr entry hentry p hp hstatus
    · exact Nat.le_succ_of_le (hi.known addr entry hentry)
  | voted hstored hactive hpos hindex =>
    rw [indexVote, if_pos hfork] at hindex
    exact hi.voted hb hstored hactive hpos hindex
  | @unfrozen _ update total hstaked hupdate =>
    rw [updateVotes, if_pos hfork] at hupdate
    rcases processIndexedProposalVotes_eq fc hb hi hstaked with ⟨σ₁, hok, hre⟩ | ⟨⟨e, herr⟩, -⟩
    · rw [hok] at hupdate
      cases hupdate
      exact hre.indexed hb hi
    · rw [herr] at hupdate
      cases hupdate
  | settled hids hsettle =>
    obtain ⟨⟨params, hcontroller⟩, hvotes, hbound, hother, hmem⟩ := settleBucket_spec hsettle
    rw [mergeInitialParameters_proposalCount] at hcontroller
    have hentries : ∀ addr, getAccountProposalVotes σ' addr = getAccountProposalVotes σ addr := by
      intro addr
      rw [getAccountProposalVotes, hvotes]
      rfl
    have hcount : σ'.controller.proposalCount = σ.controller.proposalCount := by rw [hcontroller]
    -- what is still active was not in the bucket
    have hback : ∀ id p, σ'.proposals.lookup id = some p → p.proposalStatus = .ActiveProposal →
        σ.proposals.lookup id = some p := by
      intro id p hp hstatus
      rw [← hother id fun hin => ?_]
      · exact hp
      · obtain ⟨_, q, -, hq, hsettled⟩ := hmem id hin
        rw [hp] at hq
        cases hq
        exact hsettled.1 hstatus
    have hlimit : voteIDBound σ' = voteIDBound σ := by
      rw [voteIDBound, hbound, hcount]
      rfl
    refine ⟨fun id p hp hstatus hlt addr v hv => ?_, fun addr entry hentry p hp hstatus => ?_,
      fun addr => ?_, fun addr => ?_, fun addr entry hentry => ?_⟩
    · rw [hentries]
      exact hi.complete id p (hback id p hp hstatus) hstatus (hlimit ▸ hlt) addr v hv
    · rw [hentries] at hentry
      exact hi.exact addr entry hentry p (hback _ p hp hstatus) hstatus
    · rw [hentries]
      exact hi.nodup addr
    · rw [hentries]
      exact hi.positive addr
    · rw [hentries] at hentry
      rw [hcount]
      exact hi.known addr entry hentry

/-- Before the fork no index and no bound is stored. -/
structure Unindexed (σ : ProposalStore) : Prop where
  votes : σ.votes = ∅
  preForkVotes : σ.preForkVotes = none

/-- Every call before the fork leaves the index empty and the bound open. -/
theorem StoreStep.unindexed (hstep : StoreStep fc σ σ') (hfork : fc.fixAuditChangesV5 = false)
    (h : Unindexed σ) : Unindexed σ' := by
  cases hstep with
  | kept => exact h
  | created ctx staking tc sender =>
    rw [finalizeProposal_eq, hfork]
    exact ⟨h.votes, h.preForkVotes⟩
  | voted hstored hactive hpos hindex =>
    rw [indexVote, hfork] at hindex
    cases hindex
    exact ⟨h.votes, h.preForkVotes⟩
  | unfrozen hstaked hupdate =>
    rw [updateVotes, hfork] at hupdate
    obtain ⟨-, hvotes, hbound⟩ := scanActiveProposals_terms hupdate
    exact ⟨hvotes.trans h.votes, hbound.trans h.preForkVotes⟩
  | settled hids hsettle =>
    obtain ⟨-, hvotes, hbound, -, -⟩ := settleBucket_spec hsettle
    exact ⟨hvotes.trans h.votes, hbound.trans h.preForkVotes⟩

theorem Unindexed.indexed (hb : Buckets σ) (h : Unindexed σ) : Indexed σ := by
  have hnone : ∀ addr, getAccountProposalVotes σ addr = [] := by
    intro addr
    rw [getAccountProposalVotes, h.votes]
    rfl
  refine ⟨fun id p hp _ hlt => ?_, fun addr entry hentry => ?_, fun addr => ?_, fun addr => ?_,
    fun addr entry hentry => ?_⟩
  · have := hb.counted id p hp
    rw [voteIDBound, h.preForkVotes, getD_none] at hlt
    omega
  · rw [hnone] at hentry
    cases hentry
  · rw [hnone]
    exact nodup_nil
  · rw [hnone]
    simp
  · rw [hnone] at hentry
    cases hentry

end

/-! ## Runs across the fork -/

/-- A run in which every call has the fork flags of its block. -/
def runForks (P : Platform) (s : Chain) (txs : List (ForkController × GovTx)) : Chain :=
  txs.foldl (fun s tx => attemptGov P tx.1 s tx.2) s

theorem attemptGov_store (P : Platform) (fc : ForkController) (s : Chain) (tx : GovTx) :
    StoreStep fc s.proposals (attemptGov P fc s tx).proposals := by
  unfold attemptGov
  cases h : execGov P fc s tx with
  | error e => exact .kept
  | ok s' => exact execGov_store h

variable {P : Platform}

variable {txs : List (ForkController × GovTx)} {s : Chain}

theorem runForks_keeps {fork : Bool} {I : ProposalStore → Prop}
    (hstep : ∀ {fc σ σ'}, StoreStep fc σ σ' → fc.fixAuditChangesV5 = fork → Buckets σ → I σ → I σ')
    (hforks : ∀ tx ∈ txs, tx.1.fixAuditChangesV5 = fork) (hb : Buckets s.proposals)
    (h : I s.proposals) :
    Buckets (runForks P s txs).proposals ∧ I (runForks P s txs).proposals := by
  induction txs generalizing s with
  | nil => exact ⟨hb, h⟩
  | cons tx rest ih =>
    have htx := attemptGov_store P tx.1 s tx.2
    exact ih (fun t ht => hforks t (mem_cons_of_mem _ ht)) (htx.buckets hb)
      (hstep htx (hforks tx mem_cons_self) hb h)

/-- What is left of a vote that was positive is positive, so the rebuilt index may be stored. -/
theorem keptEntries_positive {fc : ForkController} {update : ProposalVoteUpdate} {total : Int64}
    {σ : ProposalStore} (hb : Buckets σ) (hi : Indexed σ) (hunfrozen : 0 ≤ update.unfrozenAmount) :
    ∀ entry ∈ keptEntries fc update total σ, 0 < entry.amount := by
  intro entry hentry
  obtain ⟨hactive, ⟨old, hold, hid⟩, p, v, hp, hv, hamount⟩ := mem_keptEntries.1 hentry
  obtain ⟨q, v0, hq, hv0, hrecorded⟩ := hi.records hb hold (hid ▸ hactive)
  rw [hid, hp] at hq
  cases hq
  have hpos := hi.positive _ old hold
  rw [← hrecorded, Amount.pos_iff] at hpos
  rw [shrunk_voter, hv0, bind_some] at hv
  rw [← hamount, Amount.pos_iff]
  split at hv
  · split at hv
    · cases hv
    rename_i hlt
    cases hv
    rw [Amount.nonneg_iff] at hunfrozen
    rw [Int64.not_le, Int64.lt_iff_toInt_lt] at hlt
    rw [Amount.toInt_sub (by omega) hunfrozen]
    omega
  · cases hv
    exact hpos

/-- **The vote index is a faithful shortcut.**  Take a chain without proposals, any calls before
`FixAuditChangesV5` and any calls after it.  Then the handling of an unfreeze through the index
succeeds as the full scan does and leaves the same proposals, and every entry it leaves to the
voter names an active proposal and the amount recorded there. -/
theorem vote_index_faithful {s : Chain} (hstart : Unused s.proposals)
    {before after : List (ForkController × GovTx)}
    (hbefore : ∀ tx ∈ before, tx.1.fixAuditChangesV5 = false)
    (hafter : ∀ tx ∈ after, tx.1.fixAuditChangesV5 = true) {fc : ForkController}
    (hfork : fc.fixAuditChangesV5 = true) {update : ProposalVoteUpdate} {total : Int64}
    (hstaked : update.kfiStaked = .ok total) (hunfrozen : 0 ≤ update.unfrozenAmount) :
    ∃ σ₁ σ₂,
      updateVotes fc update (runForks P s (before ++ after)).proposals = .ok σ₁ ∧
      scanActiveProposals fc update (runForks P s (before ++ after)).proposals [] none = .ok σ₂ ∧
      (∀ id, σ₁.proposals.lookup id = σ₂.proposals.lookup id) ∧
      ∀ entry ∈ getAccountProposalVotes σ₁ update.encodedAddr,
        entry.proposalID ∈ activeProposalIDs σ₁.controller ∧
        ∃ p v, σ₁.proposals.lookup entry.proposalID = some p ∧
          p.proposalStatus = .ActiveProposal ∧
          p.voters.lookup update.encodedAddr = some v ∧ v.amount = entry.amount := by
  have hrun : runForks P s (before ++ after) = runForks P (runForks P s before) after :=
    foldl_append
  obtain ⟨hb0, hu⟩ :=
    runForks_keeps (P := P) (fun hstep hfork _ => hstep.unindexed hfork) hbefore hstart.buckets
      ⟨hstart.votes, hstart.preForkVotes⟩
  obtain ⟨hb, hi⟩ := runForks_keeps (P := P) StoreStep.indexed hafter hb0 (hu.indexed hb0)
  rw [← hrun] at hb hi
  obtain ⟨m, hfull, hrewrites⟩ := scanActiveProposals_full fc hb hstaked
  rcases processIndexedProposalVotes_eq fc hb hi hstaked with ⟨σ₁, hok, hre⟩ | ⟨-, hnot⟩
  · refine ⟨σ₁, _, by rw [updateVotes, if_pos hfork, hok], hfull,
      fun id => hre.proposals.lookup_eq hrewrites id, fun entry hentry => ?_⟩
    rw [hre.votes, if_pos rfl] at hentry
    obtain ⟨hactive, -, p, v, hp, hv, hamount⟩ := mem_keptEntries.1 hentry
    obtain ⟨q, hq, hstatus⟩ := (hb.active _).1 hactive
    rw [hp] at hq
    cases hq
    refine ⟨by rw [hre.controller]; exact hactive, shrunk fc update total p, v, ?_, ?_, hv, hamount⟩
    · rw [hre.proposals.inside _ hactive, hp, map_some]
    · exact (congrArg (·.proposalStatus) (shrunk_terms p)).trans hstatus
  · exact absurd (.inr (keptEntries_positive hb hi hunfrozen)) hnot

/-- Before the fork: two buckets are frozen, and their sum is voted on a proposal. -/
def sampleBeforeFork : List (ForkController × GovTx) :=
  [.freeze 60, .freeze 40, .create sampleProposal, .vote ⟨1, 100, some .Yes⟩].map fun call =>
    ({ ForkController.allActive with fixAuditChangesV5 := false }, sampleGovTx 1 [1] call)

/-- After the fork: a vote on a second proposal. -/
def sampleAfterFork : List (ForkController × GovTx) :=
  [.create sampleProposal, .vote ⟨2, 80, some .No⟩].map fun call =>
    (ForkController.allActive, sampleGovTx 1 [1] call)

/-- One vote is found by the scan and one through the index; both are shrunk to what is left. -/
theorem vote_index_faithful_sample :
    (getAccountProposalVotes
      (runForks samplePlatform sampleVoters (sampleBeforeFork ++ sampleAfterFork)).proposals
      (hexEncode [1])) = [⟨2, 80⟩] ∧
    ∃ σ₁ σ₂,
      updateVotes .allActive ⟨hexEncode [1], 40, 60, .ok 60⟩ (runForks samplePlatform sampleVoters
        (sampleBeforeFork ++ sampleAfterFork)).proposals = .ok σ₁ ∧
      scanActiveProposals .allActive ⟨hexEncode [1], 40, 60, .ok 60⟩ (runForks samplePlatform
        sampleVoters (sampleBeforeFork ++ sampleAfterFork)).proposals [] none = .ok σ₂ ∧
      ∀ id, σ₁.proposals.lookup id = σ₂.proposals.lookup id := by
  have hstart : Unused sampleVoters.proposals := ⟨rfl, rfl, rfl, rfl⟩
  refine ⟨by decide +kernel, ?_⟩
  obtain ⟨σ₁, σ₂, h1, h2, hsame, -⟩ := vote_index_faithful (P := samplePlatform) hstart
    (by decide : ∀ tx ∈ sampleBeforeFork, tx.1.fixAuditChangesV5 = false)
    (by decide : ∀ tx ∈ sampleAfterFork, tx.1.fixAuditChangesV5 = true)
    (rfl : ForkController.allActive.fixAuditChangesV5 = true)
    (rfl : (ProposalVoteUpdate.mk (hexEncode [1]) 40 60 (.ok 60)).kfiStaked = .ok 60) (by decide)
  exact ⟨σ₁, σ₂, h1, h2, hsame⟩

end KleverGo.Governance
