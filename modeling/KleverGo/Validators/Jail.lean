import KleverGo.Validators.Bookings
import KleverGo.Validators.Ratings
import KleverGo.Validators.Registry

/-!
# What keeps a jailed key in jail

Five writers change the list of a key: the penalties for missed slots, the ratings and the economics
at the end of an epoch, the reset for the new epoch, rotations, and the update with the lists of the
nodes coordinator.  All but the last keep a jailed key jailed (`KeepsJail`); the last one does
exactly for keys with a low rating (`ListsSaved.jailed_iff`).
-/

namespace KleverGo.Validators

open List

open Sharding (NodesConfig)

/-- The current key of a validator is jailed. -/
def Jailed (s : Chain) (x : Bytes) : Prop :=
  ∃ val, s.validators.validators.lookup x = some val ∧ (peerOf s val.blsPubKey).list = .jailed

/-- Owners and current keys stay, and what is jailed stays jailed. -/
structure KeepsJail (s s' : Chain) : Prop where
  identity : ∀ k, (peerOf s' k).identity = (peerOf s k).identity
  keys : ∀ x, (s'.validators.validators.lookup x).map (·.blsPubKey) =
    (s.validators.validators.lookup x).map (·.blsPubKey)
  jailed : ∀ k, (peerOf s k).list = .jailed → (peerOf s' k).list = .jailed

namespace KeepsJail

variable {s t s' : Chain}

theorem refl (s : Chain) : KeepsJail s s := ⟨fun _ => rfl, fun _ => rfl, fun _ h => h⟩

theorem trans (h1 : KeepsJail s t) (h2 : KeepsJail t s') : KeepsJail s s' :=
  ⟨fun k => (h2.identity k).trans (h1.identity k), fun x => (h2.keys x).trans (h1.keys x),
    fun k hk => h2.jailed k (h1.jailed k hk)⟩

theorem registry (h : KeepsJail s s') (hs : Registry s) : Registry s' := hs.congr h.identity h.keys

variable {x : Bytes}

theorem lookup (h : KeepsJail s s') {val : ValidatorData}
    (hval : s.validators.validators.lookup x = some val) :
    ∃ w, s'.validators.validators.lookup x = some w ∧ w.blsPubKey = val.blsPubKey := by
  have hkeys := h.keys x
  rw [hval, Option.map_some, Option.map_eq_some_iff] at hkeys
  exact hkeys

theorem kept (h : KeepsJail s s') (hx : Jailed s x) : Jailed s' x := by
  obtain ⟨val, hval, hlist⟩ := hx
  obtain ⟨w, hw, hkey⟩ := h.lookup hval
  refine ⟨w, hw, ?_⟩
  rw [hkey]
  exact h.jailed _ hlist

/-- Rewriting an account that stays who it is, and jailed if it is. -/
theorem updatePeer {key : Bytes} {p : PeerAccount} (hp : p.identity = (peerOf s key).identity)
    (hlist : (peerOf s key).list = .jailed → p.list = .jailed) :
    KeepsJail s (s.updatePeer key p) := by
  refine ⟨fun k => ?_, fun _ => rfl, fun k hk => ?_⟩
  · rw [peerOf_updatePeer]
    split
    · rename_i heq
      rw [heq, hp]
    · rfl
  · rw [peerOf_updatePeer]
    split
    · rename_i heq
      rw [heq] at hk
      exact hlist hk
    · exact hk

theorem validators {v : ValidatorStore} (hkeys : ∀ x, (v.validators.lookup x).map (·.blsPubKey) =
      (s.validators.validators.lookup x).map (·.blsPubKey)) :
    KeepsJail s { s with validators := v } :=
  ⟨fun _ => rfl, hkeys, fun _ hk => hk⟩

end KeepsJail

section
variable {R : Rater} {fc : ForkController} {s s' : Chain}

theorem jailValidatorIfBadRating_identity (p : PeerAccount) :
    (jailValidatorIfBadRating R p).identity = p.identity := by
  unfold jailValidatorIfBadRating
  split <;> rfl

variable {p : PeerAccount}

theorem jailValidatorIfBadRating_jailed (hp : p.list = .jailed) :
    (jailValidatorIfBadRating R p).list = .jailed := by
  unfold jailValidatorIfBadRating
  split
  · rfl
  · exact hp

variable {addr key : Bytes}

theorem getPeerAccount_eq_ok (h : getPeerAccount s addr = .ok (key, p)) :
    ∃ val, s.validators.validators.lookup addr = some val ∧ key = val.blsPubKey ∧
      p = peerOf s key := by
  simp only [getPeerAccount, getValidator, bind_eq_ok, orError_eq_ok, loadPeer_eq_ok,
    pure_eq_ok, Prod.mk.injEq] at h
  obtain ⟨val, hval, _, ⟨-, rfl⟩, rfl, rfl⟩ := h
  exact ⟨val, hval, rfl, rfl⟩

/-! ## Missed slots and credited blocks -/

variable {validator : Bytes}

theorem decreaseTempRating_keepsJail {isProposer : Bool}
    (h : decreaseTempRating R s validator isProposer = .ok s') : KeepsJail s s' := by
  simp only [decreaseTempRating, bind_eq_ok, pure_eq_ok] at h
  obtain ⟨⟨key, p⟩, hpeer, rfl⟩ := h
  obtain ⟨val, -, -, rfl⟩ := getPeerAccount_eq_ok hpeer
  have hid : (decreasedRating R isProposer (peerOf s key)).identity = (peerOf s key).identity := by
    unfold decreasedRating
    split <;> rfl
  have hlist : (decreasedRating R isProposer (peerOf s key)).list = (peerOf s key).list := by
    unfold decreasedRating
    split <;> rfl
  refine .updatePeer ((jailValidatorIfBadRating_identity _).trans hid) fun hk => ?_
  exact jailValidatorIfBadRating_jailed (hlist.trans hk)

variable {env : ConsensusEnv} {c : MissedCounters}

theorem missSlot_keepsJail {c' : MissedCounters} {slot : UInt64}
    (h : missSlot R env (s, c) slot = .ok (s', c')) : KeepsJail s s' := by
  simp only [missSlot, bind_eq_ok] at h
  obtain ⟨group, -, _, -, hloop⟩ := h
  refine foldlM_invariant (P := fun acc : Chain × MissedCounters => KeepsJail s acc.1) ?_
    (.refl s) hloop
  intro acc member acc' hacc hstep
  simp only [missMember, bind_eq_ok, pure_eq_ok] at hstep
  obtain ⟨t, hdecrease, rfl⟩ := hstep
  exact hacc.trans (decreaseTempRating_keepsJail hdecrease)

theorem decreaseElectedValidator_keepsJail {leader member : UInt32}
    (h : decreaseElectedValidator R fc leader member s validator = .ok s') : KeepsJail s s' := by
  simp only [decreaseElectedValidator, bind_eq_ok, loadPeer_eq_ok, pure_eq_ok] at h
  obtain ⟨_, ⟨-, rfl⟩, accountingKey, -, _, ⟨-, rfl⟩, _, ⟨-, rfl⟩, rfl⟩ := h
  have hfailures : KeepsJail s (s.updatePeer accountingKey
      (addFailures leader member (peerOf s accountingKey))) :=
    .updatePeer rfl fun hk => hk
  refine hfailures.trans (.updatePeer (jailValidatorIfBadRating_identity _) fun hk => ?_)
  exact jailValidatorIfBadRating_jailed hk

variable {currentSlot previousSlot : UInt64}

theorem checkForMissedBlocks_keepsJail
    (h : checkForMissedBlocks R fc env currentSlot previousSlot s = .ok (s', c)) :
    KeepsJail s s' := by
  unfold checkForMissedBlocks at h
  dsimp only at h
  split at h
  · cases h
    exact .refl s
  split at h
  · refine foldlM_invariant (P := fun acc : Chain × MissedCounters => KeepsJail s acc.1) ?_
      (.refl s) h
    exact fun acc slot acc' hacc hstep => hacc.trans (missSlot_keepsJail hstep)
  · simp only [decreaseAll, bind_eq_ok, pure_eq_ok, Prod.mk.injEq] at h
    obtain ⟨t, hloop, rfl, -⟩ := h
    refine foldlM_invariant (P := KeepsJail s) ?_ (.refl s) hloop
    exact fun t key t' ht hstep => ht.trans (decreaseElectedValidator_keepsJail hstep)

theorem updateMissedBlocksCounters_keepsJail (h : updateMissedBlocksCounters fc s c = .ok s') :
    KeepsJail s s' := by
  refine foldlM_invariant (P := KeepsJail s) ?_ (.refl s) h
  intro t e t' ht hstep
  simp only [decreasePeerCounter, bind_eq_ok] at hstep
  obtain ⟨⟨key, p⟩, hpeer, hstep⟩ := hstep
  obtain ⟨val, -, -, rfl⟩ := getPeerAccount_eq_ok hpeer
  refine ht.trans ?_
  split at hstep
  · cases hstep
    exact .updatePeer rfl fun hk => hk
  · cases hstep
    exact .updatePeer rfl fun hk => hk

theorem creditElectedValidator_keepsJail {bitmap : Bytes} {l v : Int64} {member : Bytes × Nat}
    (h : creditElectedValidator R fc bitmap l v s member = .ok s') : KeepsJail s s' := by
  simp only [creditElectedValidator, bind_eq_ok, loadPeer_eq_ok, pure_eq_ok] at h
  obtain ⟨_, ⟨-, rfl⟩, accountingKey, -, _, ⟨-, rfl⟩, signed, -, _, ⟨-, rfl⟩, rfl⟩ := h
  generalize computeValidatorActionType _ _ = action
  have hcredit : KeepsJail s (s.updatePeer accountingKey
      (creditAccount action l v (peerOf s accountingKey))) := by
    refine .updatePeer ?_ fun hk => ?_
    · cases action <;> rfl
    · cases action <;> exact hk
  exact hcredit.trans (.updatePeer rfl fun hk => hk)

variable {params : Parameters}

/-- A block keeps jailed keys jailed, whatever it missed and whatever it credits. -/
theorem updatePeerState_keepsJail {creditEnv : ConsensusEnv} {P : Platform}
    {previous : Option SignedBlock}
    (h : updatePeerState R fc env P params creditEnv currentSlot previousSlot previous s = .ok s') :
    KeepsJail s s' := by
  simp only [updatePeerState, bind_eq_ok] at h
  obtain ⟨⟨t, c⟩, hmissed, u, hcounters, h⟩ := h
  have hpenalties : KeepsJail s u :=
    (checkForMissedBlocks_keepsJail hmissed).trans (updateMissedBlocksCounters_keepsJail hcounters)
  cases previous with
  | none =>
    cases h
    exact hpenalties
  | some b =>
    simp only [creditBlock, updateValidatorInfoOnSuccessfulBlock, bind_eq_ok] at h
    obtain ⟨group, -, _, -, total, -, fees, -, hloop⟩ := h
    refine hpenalties.trans (foldlM_invariant (P := KeepsJail u) ?_ (.refl u) hloop)
    exact fun t member t' ht hstep => ht.trans (creditElectedValidator_keepsJail hstep)

/-! ## The start of an epoch -/

variable {epoch : UInt32} {infos infos' : List ValidatorInfo}

theorem processRatingsEndOfEpoch_keepsJail
    (h : processRatingsEndOfEpoch R epoch infos s = .ok (s', infos')) : KeepsJail s s' := by
  simp only [processRatingsEndOfEpoch, bind_eq_ok] at h
  obtain ⟨_, -, h⟩ := h
  split at h
  · cases h
    exact .refl s
  refine foldlM_invariant (P := fun acc : Chain × List ValidatorInfo => KeepsJail s acc.1) ?_
    (.refl s) h
  rintro ⟨t, done⟩ info ⟨t', done'⟩ ht hstep
  refine ht.trans ?_
  unfold processRating at hstep
  split at hstep
  · cases hstep
    exact .refl t
  simp only [verifySignaturesBelowSignedThreshold, bind_eq_ok, pure_eq_ok] at hstep
  obtain ⟨⟨u, info'⟩, hverify, heq⟩ := hstep
  cases heq
  split at hverify
  · simp only [bind_eq_ok, loadPeer_eq_ok, pure_eq_ok] at hverify
    obtain ⟨_, ⟨-, rfl⟩, heq⟩ := hverify
    cases heq
    refine .updatePeer (jailValidatorIfBadRating_identity _) fun hk => ?_
    exact jailValidatorIfBadRating_jailed hk
  · cases hverify
    exact .refl t

theorem updateValidatorJailStatus_jailed (val : ValidatorData) (epoch : UInt32)
    (hp : p.list = .jailed) : (updateValidatorJailStatus val p epoch).jailed = true := by
  unfold updateValidatorJailStatus
  have hfirst : ¬ (val.jailed = true ∧ p.list ≠ .jailed) := fun h => h.2 hp
  rw [if_neg hfirst]
  dsimp only
  split
  · rfl
  · rename_i hno
    simpa [hp] using hno

variable {val : ValidatorData}

theorem finalizeValidatorEpoch_keepsJail {w : ValidatorData}
    (hval : s.validators.validators.lookup addr = some val) (hw : w.blsPubKey = val.blsPubKey)
    (hp : p.identity = (peerOf s val.blsPubKey).identity)
    (hlist : (peerOf s val.blsPubKey).list = .jailed → p.list = .jailed) :
    KeepsJail s (finalizeValidatorEpoch s addr w p) := by
  have hpeer : KeepsJail s (s.updatePeer w.blsPubKey p.resetAtNewEpoch) := by
    rw [hw]
    exact .updatePeer hp hlist
  refine hpeer.trans (.validators fun x => ?_)
  refine (congrArg (Option.map _) (FMap.lookup_insert_eq _ _ _ _)).trans ?_
  split
  · rename_i hx
    rw [hx]
    change some w.blsPubKey = (s.validators.validators.lookup addr).map _
    rw [hval, Option.map_some, hw]
  · rfl

variable {info : ValidatorInfo}

theorem processValidatorEpoch_keepsJail {g g' : Staking.Gains}
    (h : processValidatorEpoch fc params epoch (s, g) info = .ok (s', g')) : KeepsJail s s' := by
  simp only [processValidatorEpoch, getValidator, bind_eq_ok, orError_eq_ok, loadPeer_eq_ok,
    pure_eq_ok] at h
  obtain ⟨val, hval, _, ⟨-, rfl⟩, paid, -, heq⟩ := h
  cases heq
  have hkey := (updateValidatorJailStatus_frame
    { val with selfStaked := decide (params.getParameterInt .MinSelfDelegatedAmount ≤ val.selfStake) }
    (peerOf s val.blsPubKey) epoch).2.2.2
  have hjailed := updateValidatorJailStatus_jailed (p := peerOf s val.blsPubKey)
    { val with selfStaked := decide (params.getParameterInt .MinSelfDelegatedAmount ≤ val.selfStake) }
    epoch
  generalize updateValidatorJailStatus _ _ _ = w at hkey hjailed ⊢
  generalize hstored : updateStakingBuckets fc s.validators info.ownerAddress _ _ = stored
  obtain ⟨v, total⟩ := stored
  have hv : v.validators = s.validators.validators := by
    unfold updateStakingBuckets at hstored
    split at hstored <;> cases hstored <;> rfl
  have hbookings : KeepsJail s { s with validators := v } := .validators fun _ => by rw [hv]
  have hval' : v.validators.lookup info.ownerAddress = some val := by rwa [hv]
  have hw : w.blsPubKey = val.blsPubKey := hkey
  refine hbookings.trans (finalizeValidatorEpoch_keepsJail hval' hw
    (updatePeerListStatus_identity _ _ _ _ _) fun hk => ?_)
  rw [updatePeerListStatus, if_pos (hjailed hk)]
  exact hk

theorem processEconomicsEndOfEpoch_keepsJail
    (h : processEconomicsEndOfEpoch fc params epoch infos s = .ok s') : KeepsJail s s' := by
  simp only [processEconomicsEndOfEpoch, bind_eq_ok, pure_eq_ok] at h
  obtain ⟨⟨t, g⟩, hloop, v, hsave, rfl⟩ := h
  have hvalidators : KeepsJail s t := by
    refine foldlM_invariant (P := fun acc : Chain × Staking.Gains => KeepsJail s acc.1) ?_
      (.refl s) hloop
    exact fun acc info acc' hacc hstep => hacc.trans (processValidatorEpoch_keepsJail hstep)
  obtain ⟨m, rfl⟩ := savePendingRewards_frame hsave
  exact hvalidators.trans (.validators fun _ => rfl)

/-- A record that goes to the nodes coordinator, and the account it was read off. -/
structure Current (s : Chain) (info : ValidatorInfo) : Prop where
  key : info.publicKey ≠ []
  owner : info.ownerAddress = (peerOf s info.publicKey).ownerAddress
  list : info.list = (peerOf s info.publicKey).list
  revoked : (peerOf s info.publicKey).revoked = false

theorem Current.jailed (hs : Registry s) (hinfo : Current s info)
    (hx : Jailed s info.ownerAddress) : info.list = .jailed := by
  obtain ⟨val, hval, hlist⟩ := hx
  have howner : (peerOf s info.publicKey).ownerAddress ≠ [] := by
    rw [← hinfo.owner]
    exact (hs.current _ val hval).1
  obtain ⟨-, w, hw, hcurrent⟩ := hs.bound info.publicKey howner
  rw [← hinfo.owner, hval] at hw
  cases hw
  rw [hinfo.list, ← hcurrent hinfo.revoked]
  exact hlist

theorem Current.updatePeer (hinfo : Current s info) (hne : info.publicKey ≠ key) :
    Current (s.updatePeer key p) info := by
  have hpeer := peerOf_updatePeer_ne s p hne
  refine ⟨hinfo.key, ?_, ?_, ?_⟩
  · rw [hpeer]
    exact hinfo.owner
  · rw [hpeer]
    exact hinfo.list
  · rw [hpeer]
    exact hinfo.revoked

def DistinctKeys (infos : List ValidatorInfo) : Prop :=
  infos.Pairwise fun a b => a.publicKey = b.publicKey → a.publicKey = []

/-- The revocation of a record is that of the key's account. -/
def Describes (s : Chain) (info : ValidatorInfo) : Prop :=
  info.publicKey ≠ [] → (peerOf s info.publicKey).revoked = info.isPubKeyRevoked

theorem peerOf_of_mem_entries {e : Sigma fun _ : Bytes => PeerAccount} (he : e ∈ s.peers.entries) :
    peerOf s e.1 = e.2 := by
  unfold peerOf
  rw [FMap.mem_entries_iff.1 he]
  rfl

theorem Registry.blsPublicKey_eq (hs : Registry s) (hkey : (peerOf s key).blsPublicKey ≠ []) :
    (peerOf s key).blsPublicKey = key :=
  (hs.bound key fun howner => hkey (hs.unbound key howner)).1

theorem getValidatorInfo_describes (hs : Registry s) (hinfo : info ∈ getValidatorInfo fc s) :
    Describes s info := by
  obtain ⟨e, he, rfl⟩ := mem_map.1 hinfo
  have hpeer := peerOf_of_mem_entries (mem_filter.1 he).1
  intro hkey
  dsimp only [peerAccountToValidatorInfo] at hkey ⊢
  rw [← hpeer] at hkey ⊢
  rw [hs.blsPublicKey_eq hkey]

theorem getValidatorInfo_distinct (hs : Registry s) : DistinctKeys (getValidatorInfo fc s) := by
  unfold DistinctKeys getValidatorInfo
  rw [pairwise_map]
  refine ((nodupKeys_iff_pairwise.1 s.peers.nodupKeys).filter _).imp_of_mem ?_
  intro a b ha hb hne heq
  by_contra hkey
  have hpa := peerOf_of_mem_entries (mem_filter.1 ha).1
  have hpb := peerOf_of_mem_entries (mem_filter.1 hb).1
  dsimp only [peerAccountToValidatorInfo] at heq hkey
  rw [← hpa] at hkey
  have hbkey : (peerOf s b.1).blsPublicKey ≠ [] := by
    rw [hpb, ← heq, ← hpa]
    exact hkey
  rw [← hpa, ← hpb, hs.blsPublicKey_eq hkey, hs.blsPublicKey_eq hbkey] at heq
  exact hne heq

/-- The ratings leave the keys of the records and their revocations. -/
theorem processRatingsEndOfEpoch_records
    (h : processRatingsEndOfEpoch R epoch infos s = .ok (s', infos')) :
    (infos'.map fun info => (info.publicKey, info.isPubKeyRevoked)) =
      infos.map fun info => (info.publicKey, info.isPubKeyRevoked) := by
  simp only [processRatingsEndOfEpoch, bind_eq_ok] at h
  obtain ⟨_, -, h⟩ := h
  split at h
  · cases h
    rfl
  have hrun := foldlM_rule (P := fun (rest : List ValidatorInfo) (acc : Chain × List ValidatorInfo) =>
    (acc.2 ++ rest).map (fun info => (info.publicKey, info.isPubKeyRevoked)) =
      infos.map fun info => (info.publicKey, info.isPubKeyRevoked)) ?_ infos (s, []) (s', infos')
    rfl h
  · rwa [append_nil] at hrun
  rintro ⟨t, done⟩ info rest ⟨t', done'⟩ hacc hstep
  rw [← hacc]
  unfold processRating at hstep
  split at hstep
  · cases hstep
    simp
  simp only [verifySignaturesBelowSignedThreshold, bind_eq_ok, pure_eq_ok] at hstep
  obtain ⟨⟨u, info'⟩, hverify, heq⟩ := hstep
  cases heq
  split at hverify
  · simp only [bind_eq_ok, pure_eq_ok] at hverify
    obtain ⟨_, -, heq⟩ := hverify
    cases heq
    simp
  · cases hverify
    simp

theorem DistinctKeys.of_keys (h : DistinctKeys infos)
    (heq : infos'.map (·.publicKey) = infos.map (·.publicKey)) : DistinctKeys infos' := by
  have hkeys : (infos.map (·.publicKey)).Pairwise fun a b => a = b → a = [] :=
    pairwise_map.2 h
  rw [← heq] at hkeys
  exact pairwise_map.1 hkeys

/-- The reset keeps jailed keys jailed, and its records are those of the accounts it leaves. -/
theorem resetValidatorStatisticsAtNewEpoch_spec (hdistinct : DistinctKeys infos)
    (hdescribes : ∀ info ∈ infos, Describes s info)
    (h : resetValidatorStatisticsAtNewEpoch R infos s = .ok (s', infos')) :
    KeepsJail s s' ∧ ∀ info ∈ infos', Current s' info := by
  -- the records made so far stay current because later ones are of other keys
  have hrun := foldlM_rule (P := fun (rest : List ValidatorInfo) (acc : Chain × List ValidatorInfo) =>
    KeepsJail s acc.1 ∧ (∀ info ∈ acc.2, Current acc.1 info) ∧
      (∀ info ∈ rest, Describes s info) ∧ DistinctKeys (acc.2 ++ rest)) ?_ infos (s, []) (s', infos')
    ⟨.refl s, by simp, hdescribes, hdistinct⟩ h
  · exact ⟨hrun.1, hrun.2.1⟩
  rintro ⟨t, done⟩ info rest ⟨t', done'⟩ ⟨hkeeps, hdone, hrest, hkeys⟩ hstep
  have hrest' : ∀ i ∈ rest, Describes s i := fun i hi => hrest i (mem_cons_of_mem _ hi)
  unfold resetValidator at hstep
  split at hstep
  · cases hstep
    refine ⟨hkeeps, hdone, hrest', List.Pairwise.sublist ?_ hkeys⟩
    exact (sublist_cons_self info rest).append_left done
  rename_i hrevoked
  simp only [bind_eq_ok, loadPeer_eq_ok, pure_eq_ok] at hstep
  obtain ⟨_, ⟨hne, rfl⟩, heq⟩ := hstep
  cases heq
  have hid : (setToJailedIfNeeded R (peerOf t info.publicKey).resetAtNewEpoch info).identity =
      (peerOf t info.publicKey).identity := by
    unfold setToJailedIfNeeded
    split_ifs <;> rfl
  have hreset : KeepsJail t (t.updatePeer info.publicKey
      (setToJailedIfNeeded R (peerOf t info.publicKey).resetAtNewEpoch info)) := by
    refine .updatePeer hid fun hk => ?_
    unfold setToJailedIfNeeded
    split_ifs <;> first | rfl | exact hk
  refine ⟨hkeeps.trans hreset, fun i hi => ?_, hrest', ?_⟩
  · rcases mem_append.1 hi with hi | hi
    · refine (hdone i hi).updatePeer fun hsame => (hdone i hi).key ?_
      exact (pairwise_append.1 hkeys).2.2 i hi info mem_cons_self hsame
    rw [mem_singleton.1 hi]
    have hnew := peerOf_updatePeer_self t info.publicKey
      (setToJailedIfNeeded R (peerOf t info.publicKey).resetAtNewEpoch info)
    refine ⟨hne, congrArg PeerAccount.ownerAddress hnew.symm,
      congrArg PeerAccount.list hnew.symm, ?_⟩
    have hsame : (peerOf t info.publicKey).revoked = (peerOf s info.publicKey).revoked :=
      (Prod.ext_iff.1 (Prod.ext_iff.1 (hkeeps.identity info.publicKey)).2).2
    have hset : (setToJailedIfNeeded R (peerOf t info.publicKey).resetAtNewEpoch info).revoked =
        (peerOf t info.publicKey).revoked := (Prod.ext_iff.1 (Prod.ext_iff.1 hid).2).2
    refine (congrArg PeerAccount.revoked hnew).trans ?_
    rw [hset, hsame, hrest info mem_cons_self hne]
    exact Bool.not_eq_true _ ▸ hrevoked
  · refine DistinctKeys.of_keys hkeys ?_
    simp [peerAccountToValidatorInfo]

/-- The start of an epoch keeps jailed keys jailed, and the records it gives to the nodes
coordinator say of every jailed validator that it is. -/
theorem processEpochStart_spec (hs : Registry s)
    (h : processEpochStart R fc params epoch s = .ok (s', infos)) :
    KeepsJail s s' ∧
      ∀ info ∈ infos, Jailed s' info.ownerAddress → info.list = .jailed := by
  simp only [processEpochStart, bind_eq_ok] at h
  obtain ⟨⟨t, infos1⟩, hratings, u, heconomics, hreset⟩ := h
  have hkeeps : KeepsJail s u := (processRatingsEndOfEpoch_keepsJail hratings).trans
    (processEconomicsEndOfEpoch_keepsJail heconomics)
  have hrecords := processRatingsEndOfEpoch_records hratings
  have hkeys : infos1.map (·.publicKey) = (getValidatorInfo fc s).map (·.publicKey) := by
    have hfst := congrArg (map Prod.fst) hrecords
    rwa [map_map, map_map] at hfst
  have hdistinct : DistinctKeys infos1 := (getValidatorInfo_distinct hs).of_keys hkeys
  have hdescribes : ∀ info ∈ infos1, Describes u info := by
    intro info hinfo hne
    -- the record was read off an account before the ratings
    have hmem : (info.publicKey, info.isPubKeyRevoked) ∈
        (getValidatorInfo fc s).map fun i => (i.publicKey, i.isPubKeyRevoked) := by
      rw [← hrecords]
      exact mem_map_of_mem hinfo
    obtain ⟨i, hi, heq⟩ := mem_map.1 hmem
    obtain ⟨hkey, hrevoked⟩ := Prod.mk.inj heq
    have hsame : (peerOf u info.publicKey).revoked = (peerOf s info.publicKey).revoked :=
      (Prod.ext_iff.1 (Prod.ext_iff.1 (hkeeps.identity info.publicKey)).2).2
    rw [hsame, ← hkey, ← hrevoked]
    exact getValidatorInfo_describes hs hi (hkey ▸ hne)
  obtain ⟨hlast, hcurrent⟩ := resetValidatorStatisticsAtNewEpoch_spec hdistinct hdescribes hreset
  refine ⟨hkeeps.trans hlast, fun info hinfo hx => ?_⟩
  exact (hcurrent info hinfo).jailed ((hkeeps.trans hlast).registry hs) hx

end

/-! ## The lists of the nodes coordinator -/

/-- The update with lists of validators: the key of a validator in the lists is then jailed exactly
if its rating is low, and keys of other validators are left alone. -/
structure ListsSaved (R : Rater) (addrs : List Bytes) (s s' : Chain) : Prop where
  identity : ∀ k, (peerOf s' k).identity = (peerOf s k).identity
  rating : ∀ k, (peerOf s' k).tempRating = (peerOf s k).tempRating
  validators : s'.validators = s.validators
  inside : ∀ x val, s.validators.validators.lookup x = some val → x ∈ addrs →
    ((peerOf s' val.blsPubKey).list = .jailed ↔
      isValidatorWithLowRating R (peerOf s val.blsPubKey) = true)
  outside : ∀ x val, s.validators.validators.lookup x = some val → x ∉ addrs →
    (peerOf s' val.blsPubKey).list = (peerOf s val.blsPubKey).list

section
variable {R : Rater} {s t s' : Chain} {addrs addrs' : List Bytes}

theorem ListsSaved.refl (s : Chain) : ListsSaved R [] s s :=
  ⟨fun _ => rfl, fun _ => rfl, rfl, fun _ _ _ hx => absurd hx not_mem_nil, fun _ _ _ _ => rfl⟩

theorem ListsSaved.registry (h : ListsSaved R addrs s s') (hs : Registry s) : Registry s' :=
  hs.congr h.identity fun _ => by rw [h.validators]

theorem ListsSaved.append (h1 : ListsSaved R addrs s t) (h2 : ListsSaved R addrs' t s') :
    ListsSaved R (addrs ++ addrs') s s' := by
  refine ⟨fun k => (h2.identity k).trans (h1.identity k), fun k => (h2.rating k).trans (h1.rating k),
    h2.validators.trans h1.validators, fun x val hval hx => ?_, fun x val hval hx => ?_⟩
  · have hval' : t.validators.validators.lookup x = some val := by rwa [h1.validators]
    by_cases hlast : x ∈ addrs'
    · rw [h2.inside x val hval' hlast, isValidatorWithLowRating, h1.rating, isValidatorWithLowRating]
    · rw [h2.outside x val hval' hlast]
      exact h1.inside x val hval ((mem_append.1 hx).resolve_right hlast)
  · have hval' : t.validators.validators.lookup x = some val := by rwa [h1.validators]
    rw [mem_append, not_or] at hx
    rw [h2.outside x val hval' hx.2, h1.outside x val hval hx.1]

variable {list : PeerList}

theorem processValidator_jailed {index : Nat} {p : PeerAccount} (hlist : list ≠ .jailed) :
    (processValidator R index list p).list = .jailed ↔ isValidatorWithLowRating R p = true := by
  unfold processValidator
  split
  · rename_i hlow
    exact ⟨fun _ => hlow, fun _ => rfl⟩
  · rename_i hlow
    exact ⟨fun h => absurd h hlist, fun h => absurd h hlow⟩

theorem saveUpdate_saved {member : Bytes × Nat} (hs : Registry s) (hlist : list ≠ .jailed)
    (h : saveUpdate R list s member = .ok s') :
    ListsSaved R [member.1] s s' := by
  simp only [saveUpdate, bind_eq_ok, pure_eq_ok] at h
  obtain ⟨⟨key, p⟩, hpeer, rfl⟩ := h
  obtain ⟨val, hval, rfl, rfl⟩ := getPeerAccount_eq_ok hpeer
  have hid : (processValidator R member.2 list (peerOf s val.blsPubKey)).identity =
      (peerOf s val.blsPubKey).identity := by
    unfold processValidator
    split <;> rfl
  have hrating : (processValidator R member.2 list (peerOf s val.blsPubKey)).tempRating =
      (peerOf s val.blsPubKey).tempRating := by
    unfold processValidator
    split <;> rfl
  refine ⟨fun k => ?_, fun k => ?_, rfl, fun x w hw hx => ?_, fun x w hw hx => ?_⟩
  · rw [peerOf_updatePeer]
    split
    · rename_i hk
      rw [hk, hid]
    · rfl
  · rw [peerOf_updatePeer]
    split
    · rename_i hk
      rw [hk, hrating]
    · rfl
  · rw [mem_singleton.1 hx, hval] at hw
    cases hw
    rw [peerOf_updatePeer_self]
    exact processValidator_jailed hlist
  · rw [peerOf_updatePeer_ne]
    exact fun hc => hx (mem_singleton.2 (hs.key_injective hw hval hc))

theorem saveUpdatesForList_saved (hs : Registry s) (hlist : list ≠ .jailed)
    (h : saveUpdatesForList R addrs list s = .ok s') : ListsSaved R addrs s s' := by
  -- what was saved so far, and what is still to come
  have hrun := foldlM_rule (P := fun (rest : List (Bytes × Nat)) (u : Chain) =>
    ∃ done, done ++ rest.map Prod.fst = addrs ∧ ListsSaved R done s u) ?_ addrs.zipIdx s s'
    ⟨[], by rw [zipIdx_map_fst, nil_append], .refl s⟩ h
  · obtain ⟨done, hdone, hsaved⟩ := hrun
    rw [map_nil, append_nil] at hdone
    exact hdone ▸ hsaved
  · rintro u member rest u' ⟨done, hdone, hsaved⟩ hstep
    refine ⟨done ++ [member.1], ?_, hsaved.append (saveUpdate_saved (hsaved.registry hs) hlist hstep)⟩
    rw [← hdone, append_assoc]
    rfl

/-- The owners in the lists of an epoch, apart from those that leave. -/
def listed (config : NodesConfig) : List Bytes :=
  config.electedList.map (·.ownerAddress) ++ config.eligibleList.map (·.ownerAddress) ++
    config.waitingList.map (·.ownerAddress)

theorem saveNodesCoordinatorUpdates_saved {config : Option NodesConfig} (hs : Registry s)
    (h : saveNodesCoordinatorUpdates R config s = .ok s') :
    ∃ c, config = some c ∧ ListsSaved R (listed c) s s' := by
  simp only [saveNodesCoordinatorUpdates, bind_eq_ok, orError_eq_ok] at h
  obtain ⟨c, hc, t, helected, u, heligible, hwaiting⟩ := h
  have hsaved1 := saveUpdatesForList_saved hs (by decide) helected
  have hsaved2 := saveUpdatesForList_saved (hsaved1.registry hs) (by decide) heligible
  have hsaved3 := saveUpdatesForList_saved (hsaved2.registry (hsaved1.registry hs))
    (by decide) hwaiting
  exact ⟨c, hc, (hsaved1.append hsaved2).append hsaved3⟩

/-- **The first block of an epoch** keeps a jailed validator jailed exactly if it is not in the
lists or its rating is low. -/
theorem ListsSaved.jailed_iff (h : ListsSaved R addrs s s') {x : Bytes} (hx : Jailed s x) :
    Jailed s' x ↔ (x ∈ addrs → ∀ val, s.validators.validators.lookup x = some val →
      isValidatorWithLowRating R (peerOf s val.blsPubKey) = true) := by
  obtain ⟨val, hval, hlist⟩ := hx
  have hval' : s'.validators.validators.lookup x = some val := by rwa [h.validators]
  have hjailed : Jailed s' x ↔ (peerOf s' val.blsPubKey).list = .jailed := by
    refine ⟨fun ⟨w, hw, hj⟩ => ?_, fun hj => ⟨val, hval', hj⟩⟩
    rw [hval'] at hw
    cases hw
    exact hj
  rw [hjailed]
  by_cases hmem : x ∈ addrs
  · rw [h.inside x val hval hmem]
    refine ⟨fun hlow _ w hw => ?_, fun hlow => hlow hmem val hval⟩
    rw [hval] at hw
    cases hw
    exact hlow
  · rw [h.outside x val hval hmem]
    exact ⟨fun _ hin => absurd hin hmem, fun _ => hlist⟩

end

end KleverGo.Validators
