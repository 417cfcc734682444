import KleverGo.Validators.Crediting
import KleverGo.Validators.EpochEnd

/-!
# Keys and their owners

`Registry` is what registrations and rotations maintain: the current key of a validator is a key
bound to that validator and not revoked, every other key bound to it is revoked, and an account
that is bound to nobody has no key set.  Accounts are rewritten all the time, but who they belong
to (`PeerAccount.identity`) changes in a rotation only.
-/

namespace KleverGo

open Prod (ext_iff)

open PeerAccount

/-- The key, the owner and the revocation of an account. -/
def PeerAccount.identity (p : PeerAccount) : Bytes × Bytes × Bool :=
  (p.blsPublicKey, p.ownerAddress, p.revoked)

namespace Validators

variable (s : Chain)

/-- The account of a key, as `LoadPeer` returns it. -/
def peerOf (key : Bytes) : PeerAccount := (s.peers.lookup key).getD PeerAccount.new

theorem loadPeer_eq_ok {s : Chain} {key : Bytes} {p : PeerAccount} :
    s.loadPeer key = .ok p ↔ key ≠ [] ∧ p = peerOf s key := by
  simp only [Chain.loadPeer, bind_eq_ok, reject_eq_ok, pure_eq_ok]
  constructor
  · rintro ⟨-, hne, rfl⟩
    exact ⟨hne, rfl⟩
  · rintro ⟨hne, rfl⟩
    exact ⟨(), hne, rfl⟩

theorem peerOf_updatePeer (key k : Bytes) (p : PeerAccount) :
    peerOf (s.updatePeer key p) k = if k = key then p else peerOf s k := by
  unfold peerOf Chain.updatePeer
  rw [FMap.lookup_insert_eq]
  split
  · rfl
  · rfl

theorem peerOf_updatePeer_self (key : Bytes) (p : PeerAccount) :
    peerOf (s.updatePeer key p) key = p := by
  rw [peerOf_updatePeer, if_pos rfl]

theorem peerOf_updatePeer_ne {key k : Bytes} (p : PeerAccount) (h : k ≠ key) :
    peerOf (s.updatePeer key p) k = peerOf s k := by
  rw [peerOf_updatePeer, if_neg h]

/-- The state with the record of a validator stored. -/
def storeValidator (x : Bytes) (val : ValidatorData) : Chain :=
  { s with validators := setValidator s.validators x val }

@[simp] theorem peerOf_storeValidator (x key : Bytes) (val : ValidatorData) :
    peerOf (storeValidator s x val) key = peerOf s key := rfl

theorem lookup_storeValidator (x y : Bytes) (val : ValidatorData) :
    (storeValidator s x val).validators.validators.lookup y =
      if y = x then some val else s.validators.validators.lookup y :=
  FMap.lookup_insert_eq _ _ _ _

/-- Every validator has one key that is bound to it and not revoked, its current key. -/
structure Registry (s : Chain) : Prop where
  current : ∀ x val, s.validators.validators.lookup x = some val →
    x ≠ [] ∧ val.blsPubKey ≠ [] ∧ (peerOf s val.blsPubKey).identity = (val.blsPubKey, x, false)
  bound : ∀ key, (peerOf s key).ownerAddress ≠ [] →
    (peerOf s key).blsPublicKey = key ∧
    ∃ val, s.validators.validators.lookup (peerOf s key).ownerAddress = some val ∧
      ((peerOf s key).revoked = false → val.blsPubKey = key)
  unbound : ∀ key, (peerOf s key).ownerAddress = [] → (peerOf s key).blsPublicKey = []

namespace Registry

variable {s s' : Chain} {x y key : Bytes} {val w : ValidatorData}

section
variable (hs : Registry s) (hval : s.validators.validators.lookup x = some val)
include hs hval

theorem owner : (peerOf s val.blsPubKey).ownerAddress = x :=
  (ext_iff.1 (ext_iff.1 (hs.current x val hval).2.2).2).1

theorem not_revoked : (peerOf s val.blsPubKey).revoked = false :=
  (ext_iff.1 (ext_iff.1 (hs.current x val hval).2.2).2).2

theorem key_injective (hw : s.validators.validators.lookup y = some w)
    (hkey : val.blsPubKey = w.blsPubKey) :
    x = y := by
  rw [← hs.owner hval, hkey, hs.owner hw]

end

/-- States with the same keys, owners and current keys are equally well kept. -/
theorem congr (hs : Registry s) (hpeers : ∀ k, (peerOf s' k).identity = (peerOf s k).identity)
    (hkeys : ∀ x, (s'.validators.validators.lookup x).map (·.blsPubKey) =
      (s.validators.validators.lookup x).map (·.blsPubKey)) : Registry s' := by
  have hbls : ∀ k, (peerOf s' k).blsPublicKey = (peerOf s k).blsPublicKey :=
    fun k => (ext_iff.1 (hpeers k)).1
  have howner : ∀ k, (peerOf s' k).ownerAddress = (peerOf s k).ownerAddress :=
    fun k => (ext_iff.1 (ext_iff.1 (hpeers k)).2).1
  have hrevoked : ∀ k, (peerOf s' k).revoked = (peerOf s k).revoked :=
    fun k => (ext_iff.1 (ext_iff.1 (hpeers k)).2).2
  refine ⟨fun x val hval => ?_, fun k hk => ?_, fun k hk => ?_⟩
  · have hold := hkeys x
    rw [hval, Option.map_some, eq_comm, Option.map_eq_some_iff] at hold
    obtain ⟨w, hw, hkey⟩ := hold
    have hcurrent := hs.current x w hw
    rw [hkey] at hcurrent
    rw [hpeers]
    exact hcurrent
  · rw [howner] at hk ⊢
    obtain ⟨hself, w, hw, hcurrent⟩ := hs.bound k hk
    have hnew := hkeys (peerOf s k).ownerAddress
    rw [hw, Option.map_some, Option.map_eq_some_iff] at hnew
    obtain ⟨val, hval, hkey⟩ := hnew
    refine ⟨(hbls k).trans hself, val, hval, fun hr => ?_⟩
    rw [hrevoked] at hr
    exact hkey.trans (hcurrent hr)
  · rw [howner] at hk
    rw [hbls]
    exact hs.unbound k hk

theorem updatePeer (hs : Registry s) {p : PeerAccount}
    (hp : p.identity = (peerOf s key).identity) : Registry (s.updatePeer key p) := by
  refine hs.congr (fun k => ?_) fun _ => rfl
  rw [peerOf_updatePeer]
  split
  · rename_i hk
    rw [hk]
    exact hp
  · rfl

theorem storeValidator (hs : Registry s) (hval : s.validators.validators.lookup x = some val)
    (hkey : w.blsPubKey = val.blsPubKey) : Registry (storeValidator s x w) := by
  refine hs.congr (fun _ => rfl) fun y => ?_
  rw [lookup_storeValidator]
  split
  · rename_i hy
    rw [hy, hval, Option.map_some, Option.map_some, hkey]
  · rfl

end Registry

theorem updatePeerListStatus_identity (val : ValidatorData) (p : PeerAccount) (a b c : Int64) :
    (updatePeerListStatus val p a b c).identity = p.identity := by
  unfold updatePeerListStatus
  split_ifs <;> rfl

/-! ## Rotation -/

section
variable {P : Platform} {B : BlsVerifier} {fc : ForkController} {s s' : Chain}

/-- What a rotation leaves: the old key revoked and cleared, the new key with what it carried. -/
structure Rotated (sender oldKey newKey : Bytes) (s s' : Chain) : Prop where
  old : peerOf s' oldKey = { peerOf s oldKey with revoked := true }.clearEpochAccounting
  new : peerOf s' newKey = { jailIfElected (peerOf s oldKey) with
    blsPublicKey := newKey, ownerAddress := sender, revoked := false }
  others : ∀ k, k ≠ oldKey → k ≠ newKey → peerOf s' k = peerOf s k
  validators : s'.validators = s.validators

variable {p : PeerAccount}

variable {sender : Bytes}

theorem checkRotationTarget_eq_ok {u : Unit} :
    checkRotationTarget sender p = .ok u ↔
      p.revoked = false ∧ (p.ownerAddress = [] ∨ sender = p.ownerAddress) := by
  simp only [checkRotationTarget, bind_eq_ok, reject_eq_ok, Bool.not_eq_true, not_and,
    not_not, exists_const]
  exact and_congr_right fun _ => or_iff_not_imp_left.symm

variable {p' old : PeerAccount} {oldKey newKey : Bytes}

/-- Starting the account of the new key leaves who it belongs to. -/
theorem initRotatedPeerAccount_owner
    (h : initRotatedPeerAccount fc s p old oldKey newKey = .ok (s', p')) :
    p'.ownerAddress = p.ownerAddress ∧ p'.revoked = p.revoked := by
  unfold initRotatedPeerAccount at h
  split at h
  · cases h
    exact ⟨rfl, rfl⟩
  simp only [bind_eq_ok] at h
  obtain ⟨_, -, h⟩ := h
  split at h
  · cases h
    exact ⟨rfl, rfl⟩
  · cases h
    unfold jailIfElected
    split <;> exact ⟨rfl, rfl⟩

/-- An account that was not bound to the key takes over what the old account held. -/
theorem initRotatedPeerAccount_fresh (hbuckets : fc.fixStakingBuckets = true)
    (hclear : fc.fixAuditChangesV7 = true) (hfresh : p.blsPublicKey ≠ newKey)
    (h : initRotatedPeerAccount fc s p old oldKey newKey = .ok (s', p')) :
    s' = s.updatePeer oldKey old.clearEpochAccounting ∧
      p' = jailIfElected (copyFrom { p with blsPublicKey := newKey } old) := by
  simp only [initRotatedPeerAccount, hfresh, hbuckets, hclear, bind_eq_ok, if_false, if_true,
    Bool.not_true, Bool.false_eq_true, pure_eq_ok, Prod.mk.injEq] at h
  obtain ⟨_, -, rfl, rfl⟩ := h
  exact ⟨rfl, rfl⟩

variable {nonce : UInt64} {cfg : ValidatorConfig}

section
variable (hbuckets : fc.fixStakingBuckets = true) (hclear : fc.fixAuditChangesV7 = true)
  (hs : Registry s)
include hbuckets hclear hs

theorem rotateBLSKey_spec {val val' : ValidatorData}
    (hval : s.validators.validators.lookup sender = some val)
    (hne : val.blsPubKey ≠ cfg.blsPublicKey)
    (h : rotateBLSKey B fc nonce s sender val cfg = .ok (s', val')) :
    Rotated sender val.blsPubKey cfg.blsPublicKey s s' ∧ cfg.blsPublicKey ≠ [] ∧
      (peerOf s cfg.blsPublicKey).ownerAddress = [] ∧
      val' = { val with blsPubKey := cfg.blsPublicKey } := by
  simp only [rotateBLSKey, bind_eq_ok, withReceipt_eq_ok, withCode_eq_ok, reject_eq_ok, pure_eq_ok,
    revokePeerAccount, loadPeer_eq_ok, checkIf_eq_ok, loadAndCheckRotationTarget] at h
  obtain
    ⟨_, -, _, hfirst, _, -, _, ⟨old, ⟨-, rfl⟩, rfl⟩, p, ⟨hkey, rfl⟩, ⟨s2, p2⟩, hinit, _, hafter, _,
    hsender, heq⟩ := h
  cases heq
  have htarget : peerOf (s.updatePeer val.blsPubKey
      { peerOf s val.blsPubKey with revoked := true }) cfg.blsPublicKey =
      peerOf s cfg.blsPublicKey := peerOf_updatePeer_ne s _ hne.symm
  rw [htarget] at hinit
  obtain ⟨howner2, hrevoked2⟩ := initRotatedPeerAccount_owner hinit
  -- the target is checked before or after the old key is revoked, on the same account
  have hcheck : (peerOf s cfg.blsPublicKey).revoked = false ∧
      ((peerOf s cfg.blsPublicKey).ownerAddress = [] ∨
        sender = (peerOf s cfg.blsPublicKey).ownerAddress) := by
    cases hv6 : fc.fixAuditChangesV6 with
    | true =>
      obtain ⟨_, ⟨-, rfl⟩, hok⟩ := hfirst hv6
      exact checkRotationTarget_eq_ok.1 hok
    | false =>
      have hok := checkRotationTarget_eq_ok.1 (hafter (by rw [hv6]; rfl))
      rwa [howner2, hrevoked2] at hok
  have hunbound : (peerOf s cfg.blsPublicKey).ownerAddress = [] := by
    rcases hcheck.2 with hnone | hself
    · exact hnone
    -- the sender's only key that is not revoked is the current one
    have hbound := hs.bound cfg.blsPublicKey (hself ▸ hsender)
    obtain ⟨-, w, hw, hcurrent⟩ := hbound
    rw [← hself, hval] at hw
    cases hw
    exact absurd (hcurrent hcheck.1) hne
  have hfresh : (peerOf s cfg.blsPublicKey).blsPublicKey ≠ cfg.blsPublicKey := by
    rw [hs.unbound _ hunbound]
    exact hkey.symm
  obtain ⟨rfl, rfl⟩ := initRotatedPeerAccount_fresh hbuckets hclear hfresh hinit
  refine ⟨⟨?_, ?_, ?_, rfl⟩, hkey, hunbound, rfl⟩
  · rw [peerOf_updatePeer_ne _ _ hne, peerOf_updatePeer_self]
  · rw [peerOf_updatePeer_self]
    by_cases helected : (peerOf s val.blsPubKey).list = .elected <;>
      simp [jailIfElected, copyFrom, helected, hcheck.1]
  · intro k hold hnew
    rw [peerOf_updatePeer_ne _ _ hnew, peerOf_updatePeer_ne _ _ hold, peerOf_updatePeer_ne _ _ hold]

/-- What an accepted `UpdateValidator` does: it rewrites the record of the sender's validator,
and where it changes the key, rotates it to one that was bound to nobody. -/
theorem updateValidator_spec (h : updateValidator P B fc nonce s sender cfg = .ok s') :
    ∃ val, s.validators.validators.lookup sender = some val ∧
      (s' = storeValidator s sender (applyValidatorConfig val cfg) ∨
        val.blsPubKey ≠ cfg.blsPublicKey ∧ cfg.blsPublicKey ≠ [] ∧
        (peerOf s cfg.blsPublicKey).ownerAddress = [] ∧
        ∃ s1, Rotated sender val.blsPubKey cfg.blsPublicKey s s1 ∧
          s' = storeValidator s1 sender
            (applyValidatorConfig { val with blsPubKey := cfg.blsPublicKey } cfg)) := by
  simp only [updateValidator, rotateKeyAndCheckMetadata, getValidator, bind_eq_ok,
    withReceipt_eq_ok, orError_eq_ok, pure_eq_ok] at h
  obtain ⟨_, -, _, -, val, hval, ⟨s1, w⟩, ⟨_, -, ⟨s2, w2⟩, hrotate, _, -, heq⟩, rfl⟩ := h
  cases heq
  refine ⟨val, hval, ?_⟩
  unfold rotateIfChanged at hrotate
  split at hrotate
  · rename_i hchange
    obtain ⟨hrotated, hkey, hunbound, rfl⟩ :=
      rotateBLSKey_spec hbuckets hclear hs hval hchange.2 hrotate
    exact .inr ⟨hchange.2, hkey, hunbound, _, hrotated, rfl⟩
  · cases hrotate
    exact .inl rfl

end

/-- The current key of a validator is none of the two keys of another one's rotation. -/
theorem Rotated.other_key {x : Bytes} {val w : ValidatorData} (hs : Registry s)
    (hval : s.validators.validators.lookup sender = some val) (hold : oldKey = val.blsPubKey)
    (hunbound : (peerOf s newKey).ownerAddress = [])
    (hw : s.validators.validators.lookup x = some w) (hx : x ≠ sender) :
    w.blsPubKey ≠ oldKey ∧ w.blsPubKey ≠ newKey := by
  refine ⟨fun hc => hx (hs.key_injective hw hval (hc.trans hold)), fun hc => ?_⟩
  rw [← hc, hs.owner hw] at hunbound
  exact (hs.current x w hw).1 hunbound

theorem Rotated.registry {val w : ValidatorData} (hs : Registry s)
    (hval : s.validators.validators.lookup sender = some val) (hkey : newKey ≠ [])
    (hunbound : (peerOf s newKey).ownerAddress = []) (h : Rotated sender val.blsPubKey newKey s s')
    (hw : w.blsPubKey = newKey) :
    Registry (storeValidator s' sender w) := by
  have hsender : sender ≠ [] := (hs.current sender val hval).1
  have hlookup : ∀ x, (storeValidator s' sender w).validators.validators.lookup x =
      if x = sender then some w else s.validators.validators.lookup x := by
    intro x
    rw [lookup_storeValidator, h.validators]
  have hold : (peerOf s' val.blsPubKey).identity = (val.blsPubKey, sender, true) := by
    rw [h.old]
    have hid := (hs.current sender val hval).2.2
    simp only [identity, clearEpochAccounting, Prod.mk.injEq] at hid ⊢
    exact ⟨hid.1, hid.2.1, trivial⟩
  have hnew : (peerOf s' newKey).identity = (newKey, sender, false) := by
    rw [h.new]
    rfl
  simp only [identity, Prod.mk.injEq] at hold hnew
  refine ⟨fun x c hc => ?_, fun k hk => ?_, fun k hk => ?_⟩
  · rw [hlookup] at hc
    rw [peerOf_storeValidator]
    split at hc
    · rename_i hx
      cases hc
      rw [hw, hx]
      exact ⟨hsender, hkey, by simp only [identity, hnew]⟩
    · rename_i hx
      obtain ⟨hne1, hne2⟩ := Rotated.other_key hs hval rfl hunbound hc hx
      rw [h.others _ hne1 hne2]
      exact hs.current x c hc
  · rw [peerOf_storeValidator] at hk ⊢
    rw [hlookup]
    by_cases hk1 : k = val.blsPubKey
    · rw [hk1, hold.2.1, if_pos rfl]
      refine ⟨hold.1, w, rfl, fun hr => ?_⟩
      rw [hold.2.2] at hr
      cases hr
    by_cases hk2 : k = newKey
    · rw [hk2, hnew.2.1, if_pos rfl]
      exact ⟨hnew.1, w, rfl, fun _ => hw⟩
    rw [h.others k hk1 hk2] at hk ⊢
    obtain ⟨hself, c, hc, hcurrent⟩ := hs.bound k hk
    refine ⟨hself, ?_⟩
    split
    · rename_i hx
      -- a key of the sender that was not current was revoked before
      refine ⟨w, rfl, fun hr => ?_⟩
      rw [hx, hval] at hc
      cases hc
      exact absurd (hcurrent hr).symm hk1
    · exact ⟨c, hc, hcurrent⟩
  · rw [peerOf_storeValidator] at hk ⊢
    by_cases hk1 : k = val.blsPubKey
    · rw [hk1, hold.2.1] at hk
      exact absurd hk hsender
    by_cases hk2 : k = newKey
    · rw [hk2, hnew.2.1] at hk
      exact absurd hk hsender
    · rw [h.others k hk1 hk2] at hk ⊢
      exact hs.unbound k hk

end

/-! ## A registry for runs on concrete inputs -/

/-- Validators `[1]` and `[2]` with keys `[21]` and `[22]`. -/
def sampleRegistry : Chain where
  users := ∅
  kdas := ∅
  market := ⟨∅, ∅, ∅⟩
  validators := { ValidatorStore.empty with
    validators := ((∅ : FMap Bytes ValidatorData).insert [1]
      { ownerAddress := [1], canDelegate := true, maxDelegation := 0, selfStake := 0,
        totalStake := 0, rewardsAddress := [1], blsPubKey := [21] }).insert [2]
      { ownerAddress := [2], canDelegate := true, maxDelegation := 0, selfStake := 0,
        totalStake := 0, rewardsAddress := [2], blsPubKey := [22] } }
  peers := ((∅ : FMap Bytes PeerAccount).insert [21]
    { PeerAccount.new with blsPublicKey := [21], ownerAddress := [1], list := .elected }).insert
    [22] { PeerAccount.new with blsPublicKey := [22], ownerAddress := [2], list := .elected }

theorem peerOf_sampleRegistry (key : Bytes) : peerOf sampleRegistry key =
    if key = [22] then
      { PeerAccount.new with blsPublicKey := [22], ownerAddress := [2], list := .elected }
    else if key = [21] then
      { PeerAccount.new with blsPublicKey := [21], ownerAddress := [1], list := .elected }
    else PeerAccount.new := by
  simp only [peerOf, sampleRegistry, FMap.lookup_insert_eq, AList.lookup_empty]
  split
  · rfl
  · split <;> rfl

theorem sampleRegistry_registry : Registry sampleRegistry := by
  refine ⟨fun x val hval => ?_, fun key hkey => ?_, fun key hkey => ?_⟩
  · simp only [sampleRegistry, FMap.lookup_insert_eq, AList.lookup_empty] at hval
    split_ifs at hval with h2 h1
    · cases hval
      rw [h2]
      decide
    · cases hval
      rw [h1]
      decide
  · rw [peerOf_sampleRegistry] at hkey ⊢
    split_ifs at hkey ⊢ with h2 h1
    · rw [h2]
      exact ⟨rfl, _, rfl, fun _ => rfl⟩
    · rw [h1]
      exact ⟨rfl, _, rfl, fun _ => rfl⟩
    · exact absurd rfl hkey
  · rw [peerOf_sampleRegistry] at hkey ⊢
    split_ifs at hkey ⊢
    rfl

end Validators

end KleverGo
