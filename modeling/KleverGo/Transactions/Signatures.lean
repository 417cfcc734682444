import KleverGo.Transactions.Permissions

/-!
# Authorization of transactions

`checkTxValues` of `core/process/transaction/baseProcess.go` lets a transaction pass if its nonce is
the sender's, its signatures reach the threshold of the permission it names, its contracts are
granted by that permission and its fees are valid and paid for.  Keys and signatures are those of an
arbitrary `Signing`; the computations of the economics and of the fee pools are given by a `FeeEnv`.

* `verifySignatures_spec`: the loop over the signatures gives each of them a signer of its own.
* `multisig_sound`: **a transaction that passes is signed by distinct signers of its permission whose
  weights reach the threshold, and grants its contracts.**
-/

namespace KleverGo.Transactions

open List

/-- `crypto.KeyGenerator` and `crypto.SingleSigner`; a signature verifies or not. -/
structure Signing (PublicKey : Type) where
  publicKeyFromByteArray : Bytes → Option PublicKey
  verify : PublicKey → Bytes → Bytes → Bool

structure KDAFee where
  kda : Bytes
  amount : Int64
  deriving DecidableEq, Repr

/-- `transaction.Transaction`, with the contract types as the numbers the permission masks use. -/
structure Transaction where
  sender : Bytes
  nonce : UInt64
  permissionID : Int32
  contractTypes : List UInt32
  kdaFee : Option KDAFee
  bandwidthFee : Int64
  kAppFee : Int64
  signature : List Bytes
  deriving DecidableEq, Repr

/-- The parts of the fee checks that other components compute. -/
structure FeeEnv (Cost : Type) where
  /-- `economicsFee.CheckValidityTxValues` -/
  checkValidityTxValues : Transaction → Except Err Cost
  /-- `economicsFee.ComputeGas`: the gas limit and the gas multiplier -/
  computeGas : Transaction → Cost → Except Err (UInt64 × UInt64)
  /-- `kdaFeesPool.Compute` -/
  compute : Int64 → KDAFee → Except Err Int64

def MaxOperationsSize : Nat := 8

def validatePermissionOperation (tx : Transaction) (permission : Bytes) : Except Err Unit := do
  reject (MaxOperationsSize < permission.length) .ErrInvalidPermission
  reject (tx.contractTypes = []) .ErrInvalidContract
  reject (tx.contractTypes.any fun t => !checkPermissionGrantedForContract permission t)
    .ErrNoPermission

def validateNonce (nonce : UInt64) (tx : Transaction) : Except Err Unit := do
  reject (nonce < tx.nonce) .ErrHigherNonceInTransaction
  reject (tx.nonce < nonce) .ErrLowerNonceInTransaction

section
variable {PublicKey : Type} (sg : Signing PublicKey)

def loadSignerPublicKeys : FMap Bytes PublicKey → List Key → Except Err (FMap Bytes PublicKey)
  | signersPub, [] => .ok signersPub
  | signersPub, signer :: rest => do
    let pub ← orError (sg.publicKeyFromByteArray signer.address) .ErrInvalidPublicKey
    loadSignerPublicKeys (signersPub.insert signer.address pub) rest

/-- The inner loop of `verifySignatures`: the first signer left whose key verifies. -/
def matchSigner (signers : List Key) (signersPub : FMap Bytes PublicKey) (txHash signature : Bytes) :
    Option Key :=
  signers.find? fun signer =>
    (signersPub.lookup signer.address).any fun pub => sg.verify pub txHash signature

/-- `verifySignatures`: the signers that signed, with their total weight. -/
def verifySignatures (signers : List Key) (txHash : Bytes) :
    FMap Bytes PublicKey → List Bytes → Except Err (List Key × Int64)
  | _, [] => .ok ([], 0)
  | signersPub, signature :: rest =>
    match matchSigner sg signers signersPub txHash signature with
    | none => .error .ErrInvalidSignature
    | some signer => do
      let (signedBy, signWeight) ←
        verifySignatures signers txHash (signersPub.erase signer.address) rest
      pure (signer :: signedBy, signer.weight + signWeight)

def validatePermission (tx : Transaction) (permission : Permission) (txHash : Bytes) :
    Except Err (List Key) := do
  checkIf (permission.type ≠ .Owner) (validatePermissionOperation tx permission.operations)
  let signersPub ← loadSignerPublicKeys sg ∅ permission.signers
  let (signedBy, signWeight) ←
    verifySignatures sg permission.signers txHash signersPub tx.signature
  reject (signWeight < permission.threshold) .ErrSignatureThreshold
  pure signedBy

variable {Cost : Type} (env : FeeEnv Cost) (fc : ForkController)

/-- `computeKDAFees`: the asset the fees are paid in, and how much of it. -/
def computeKDAFees (tx : Transaction) (totalFees : Int64) : Except Err (Bytes × Int64) :=
  if !fc.fprComputeAndKdaFeeFlow then .ok (KLVIdentifier, totalFees)
  else
    match tx.kdaFee with
    | none => .ok (KLVIdentifier, totalFees)
    | some fee =>
      if fee.kda ≠ [] ∧ fee.kda ≠ KLVIdentifier then do
        let totalFeesKDA ← (env.compute totalFees fee).mapError fun _ => .ErrComputeKDAFeeError
        pure (fee.kda, totalFeesKDA)
      else .ok (KLVIdentifier, totalFees)

def checkPaymentFeeBalance (tx : Transaction) (acntSnd : UserAccount) : Except Err Unit := do
  reject (0 < tx.bandwidthFee ∧ 9223372036854775807 - tx.bandwidthFee < tx.kAppFee) .ErrOverflow
  let (assetID, kdaFees) ← computeKDAFees env fc tx (tx.bandwidthFee + tx.kAppFee)
  reject (acntSnd.getBalance assetID < kdaFees) .ErrInsufficientFee

/-- `checkTxValues` of the stored account of the sender; it returns who signed and the gas. -/
def checkTxValues (s : Chain) (acntSnd : UserAccount) (tx : Transaction) (txHash : Bytes) :
    Except Err (List Key × UInt64 × UInt64) := do
  validateNonce ((s.nonces.lookup tx.sender).getD 0) tx
  let permission ← getPermission tx.sender (permissionsOf s tx.sender) tx.permissionID
  let signedBy ← validatePermission sg tx permission txHash
  let computedCost ← env.checkValidityTxValues tx
  checkPaymentFeeBalance env fc tx acntSnd
  let gas ← env.computeGas tx computedCost
  pure (signedBy, gas)

end

/-! ## Masks -/

/-- Bit `t` of a mask, counted from the lowest bit of its first byte. -/
def Grants (mask : Bytes) (t : Nat) : Prop :=
  ∃ byte, mask[t / 8]? = some byte ∧ byte.toNat.testBit (t % 8) = true

theorem checkPermissionGrantedForContract_iff {mask : Bytes} {t : UInt32} :
    checkPermissionGrantedForContract mask t = true ↔ Grants mask t.toNat := by
  have hbit : ∀ byte : UInt8, (byte &&& (1 <<< (t % 8).toUInt8) != 0) =
      byte.toNat.testBit (t.toNat % 8) := by
    intro byte
    have hlt : t.toNat % 8 < 8 := Nat.mod_lt _ (by decide)
    have hshift : (1 <<< (t % 8).toUInt8 : UInt8).toNat = 2 ^ (t.toNat % 8) := by
      rw [UInt8.toNat_shiftLeft, UInt32.toNat_toUInt8, UInt32.toNat_mod]
      have hpow : 2 ^ (t.toNat % 8) ≤ 2 ^ 7 := Nat.pow_le_pow_right (by decide) (by omega)
      simp [Nat.shiftLeft_eq]
      omega
    rw [bne, ← Bool.not_not (byte.toNat.testBit _)]
    congr 1
    rw [Bool.eq_iff_iff, beq_iff_eq, ← UInt8.toNat_inj, UInt8.toNat_and, hshift, Nat.and_two_pow]
    cases byte.toNat.testBit (t.toNat % 8) <;> simp
  unfold checkPermissionGrantedForContract Grants
  rw [UInt32.toNat_div]
  cases hmask : mask[t.toNat / (8 : UInt32).toNat]? with
  | none =>
    have hmask' : mask[t.toNat / 8]? = none := hmask
    simp [hmask']
  | some byte =>
    have hmask' : mask[t.toNat / 8]? = some byte := hmask
    simp [hmask', hbit]

/-! ## Signatures -/

section
variable {PublicKey : Type} {sg : Signing PublicKey}

variable {signers : List Key} {pubs : FMap Bytes PublicKey}

theorem loadSignerPublicKeys_spec {pubs' : FMap Bytes PublicKey}
    (hpubs : ∀ a pub, pubs.lookup a = some pub → sg.publicKeyFromByteArray a = some pub)
    (h : loadSignerPublicKeys sg pubs signers = .ok pubs') :
    ∀ a pub, pubs'.lookup a = some pub → sg.publicKeyFromByteArray a = some pub := by
  induction signers generalizing pubs with
  | nil =>
    cases h
    exact hpubs
  | cons signer rest ih =>
    simp only [loadSignerPublicKeys, bind_eq_ok, orError_eq_ok] at h
    obtain ⟨pub, hpub, h⟩ := h
    refine ih (fun a pub' ha => ?_) h
    rw [FMap.lookup_insert_eq] at ha
    split at ha
    · rename_i heq
      cases ha
      rw [heq]
      exact hpub
    · exact hpubs a pub' ha

variable {txHash : Bytes} {signedBy : List Key}

/-- **Each signature is given a signer of its own.** -/
theorem verifySignatures_spec {signatures : List Bytes} {w : Int64}
    (h : verifySignatures sg signers txHash pubs signatures = .ok (signedBy, w)) :
    (signedBy.map Key.address).Nodup ∧ w = (signedBy.map Key.weight).sum ∧
    ∀ k ∈ signedBy, k ∈ signers ∧ ∃ pub, pubs.lookup k.address = some pub ∧
      ∃ signature ∈ signatures, sg.verify pub txHash signature = true := by
  induction signatures generalizing pubs signedBy w with
  | nil =>
    cases h
    exact ⟨nodup_nil, rfl, fun k hk => absurd hk not_mem_nil⟩
  | cons signature rest ih =>
    unfold verifySignatures at h
    split at h
    · cases h
    rename_i signer hmatch
    simp only [bind_eq_ok, pure_eq_ok, Prod.mk.injEq] at h
    obtain ⟨⟨signedBy1, w1⟩, hrest, rfl, rfl⟩ := h
    obtain ⟨hnodup, hweight, hsigned⟩ := ih hrest
    have hverified := find?_some hmatch
    rw [Option.any_eq_true] at hverified
    obtain ⟨pub, hpub, hverify⟩ := hverified
    refine ⟨?_, by rw [map_cons, sum_cons, ← hweight], fun k hk => ?_⟩
    · -- the signer is no longer in the map when the others are found
      rw [map_cons, nodup_cons]
      refine ⟨fun hmem => ?_, hnodup⟩
      obtain ⟨k, hk, heq⟩ := mem_map.1 hmem
      obtain ⟨-, pub', hpub', -⟩ := hsigned k hk
      rw [FMap.lookup_erase_eq, if_pos heq] at hpub'
      cases hpub'
    · rcases mem_cons.1 hk with rfl | hk
      · exact ⟨mem_of_find?_eq_some hmatch, pub, hpub, signature, mem_cons_self, hverify⟩
      obtain ⟨hmem, pub', hpub', sig, hsig, hv⟩ := hsigned k hk
      rw [FMap.lookup_erase_eq] at hpub'
      split at hpub'
      · cases hpub'
      · exact ⟨hmem, pub', hpub', sig, mem_cons_of_mem _ hsig, hv⟩

variable {index : Nat} {p : Permission}

/-- Distinct signers of a permission weigh at most all of them, and their weights add exactly. -/
theorem signed_weight (hp : WellFormedAt index p) (hnodup : (signedBy.map Key.address).Nodup)
    (hmem : ∀ k ∈ signedBy, k ∈ p.signers) :
    (signedBy.map Key.weight).sum.toInt = weightOf signedBy := by
  have hsum : ∀ l : List Key, (∀ k ∈ l, 0 < k.weight.toInt) →
      0 ≤ weightOf l ∧ (weightOf l < 2 ^ 63 → (l.map Key.weight).sum.toInt = weightOf l) := by
    intro l
    induction l with
    | nil => exact fun _ => ⟨Int.le_refl 0, fun _ => rfl⟩
    | cons k rest ih =>
      intro hpos
      obtain ⟨hnonneg, hexact⟩ := ih fun k' hk' => hpos k' (mem_cons_of_mem _ hk')
      have hk := hpos k mem_cons_self
      have hcons : weightOf (k :: rest) = k.weight.toInt + weightOf rest := rfl
      rw [hcons]
      refine ⟨by omega, fun hlt => ?_⟩
      rw [map_cons, sum_cons, Amount.toInt_add_of_lt (by omega) _ _, hexact (by omega)]
      · rw [hexact (by omega)]
        exact hnonneg
      · rw [hexact (by omega)]
        exact hlt
  -- the signers that signed are some of the signers, each once
  obtain ⟨l, hl, hsub⟩ := subperm_of_subset hnodup.of_map hmem
  obtain ⟨others, hperm⟩ := hsub.exists_perm_append
  have hsplit : weightOf p.signers = weightOf signedBy + weightOf others := by
    unfold weightOf
    rw [(hperm.map _).sum_eq, map_append, sum_append, (hl.map _).sum_eq]
  have hothers := hsum others fun k hk =>
    hp.positive k (hperm.mem_iff.2 (mem_append_right _ hk))
  have hfits := hp.fits
  exact (hsum signedBy fun k hk => hp.positive k (hmem k hk)).2 (by omega)

/-- What a permission that is validated means: distinct signers of it signed, and they reach the
threshold. -/
structure Authorized (sg : Signing PublicKey) (tx : Transaction) (txHash : Bytes) (p : Permission)
    (signedBy : List Key) : Prop where
  distinct : (signedBy.map Key.address).Nodup
  signers : ∀ k ∈ signedBy, k ∈ p.signers
  signed : ∀ k ∈ signedBy, ∃ pub, sg.publicKeyFromByteArray k.address = some pub ∧
    ∃ signature ∈ tx.signature, sg.verify pub txHash signature = true
  reached : p.threshold.toInt ≤ weightOf signedBy
  positive : 0 < p.threshold.toInt
  granted : p.type ≠ .Owner → ∀ t ∈ tx.contractTypes, Grants p.operations t.toNat

theorem validatePermission_spec (hp : WellFormedAt index p) {tx : Transaction}
    (h : validatePermission sg tx p txHash = .ok signedBy) :
    Authorized sg tx txHash p signedBy := by
  simp only [validatePermission, bind_eq_ok, checkIf_eq_ok, reject_eq_ok, pure_eq_ok] at h
  obtain ⟨_, hops, pubs, hload, ⟨signedBy1, w⟩, hverify, _, hreached, rfl⟩ := h
  obtain ⟨hnodup, hweight, hsigned⟩ := verifySignatures_spec hverify
  have hempty : ∀ a pub, (∅ : FMap Bytes PublicKey).lookup a = some pub →
      sg.publicKeyFromByteArray a = some pub := by simp
  have hpubs := loadSignerPublicKeys_spec hempty hload
  have hexact := signed_weight hp hnodup fun k hk => (hsigned k hk).1
  refine ⟨hnodup, fun k hk => (hsigned k hk).1, fun k hk => ?_, ?_, by have := hp.threshold; omega,
    fun htype t ht => ?_⟩
  · obtain ⟨-, pub, hpub, hsig⟩ := hsigned k hk
    exact ⟨pub, hpubs _ _ hpub, hsig⟩
  · dsimp only at hreached ⊢
    rw [Int64.lt_iff_toInt_lt, hweight, hexact] at hreached
    omega
  have hvalid := hops (by simpa using htype)
  simp only [validatePermissionOperation, bind_eq_ok, reject_eq_ok] at hvalid
  obtain ⟨_, -, _, -, hgranted⟩ := hvalid
  rw [← checkPermissionGrantedForContract_iff]
  simp only [any_eq_true, Bool.not_eq_true', not_exists, not_and, Bool.not_eq_false] at hgranted
  exact hgranted t ht

/-- The permission an account names is well formed, also if it never set any. -/
theorem getPermission_wellFormed {address : Bytes} {permissions : List Permission}
    (hp : permissions = [] ∨ WellFormed permissions) {id : Int32}
    (h : getPermission address permissions id = .ok p) : ∃ index, WellFormedAt index p := by
  unfold getPermission at h
  split at h
  · split at h
    · cases h
      exact ⟨0, ownerPermission_wellFormed address (by omega)⟩
    · cases h
  rename_i hne
  rw [orError_eq_ok] at h
  rcases hp with rfl | hwell
  · exact absurd rfl hne
  · obtain ⟨i, hi⟩ := mem_iff_getElem?.1 (mem_of_find?_eq_some h)
    exact ⟨i, hwell.each i p hi⟩

/-- **Multi-signature authorization is sound.**  If a transaction passes `checkTxValues` and the
permissions of its sender were set by successful updates only, if at all, then distinct signers of
the permission it names signed it, their weights reach its threshold, which is positive, and a
permission that is not the owner's grants every contract of the transaction. -/
theorem multisig_sound {P : Platform} {Cost : Type} {env : FeeEnv Cost} {s s' : Chain}
    {calls : List UpdateCall} {tx : Transaction} {txHash : Bytes} {acntSnd : UserAccount}
    {r : List Key × UInt64 × UInt64} (hnever : permissionsOf s tx.sender = [])
    (hrun : runUpdates P .allActive s calls = .ok s')
    (h : checkTxValues sg env .allActive s' acntSnd tx txHash = .ok r) :
    ∃ p, getPermission tx.sender (permissionsOf s' tx.sender) tx.permissionID = .ok p ∧
      ∃ signedBy, Authorized sg tx txHash p signedBy := by
  simp only [checkTxValues, bind_eq_ok, pure_eq_ok] at h
  obtain ⟨_, -, p, hp, signedBy, hsigned, -⟩ := h
  have hwell : permissionsOf s' tx.sender = [] ∨ WellFormed (permissionsOf s' tx.sender) := by
    have hspec := runUpdates_spec rfl hrun tx.sender
    split at hspec
    · exact .inr hspec
    · exact .inl (hspec.trans hnever)
  obtain ⟨index, hindex⟩ := getPermission_wellFormed hwell hp
  exact ⟨p, hp, signedBy, validatePermission_spec hindex hsigned⟩

end

/-- Keys are addresses, and a signature is the key that made it. -/
def sampleSigning : Signing Bytes := ⟨some, fun pub _ signature => signature == pub⟩

def sampleFees : FeeEnv Unit := ⟨fun _ => .ok (), fun _ _ => .ok (0, 0), fun fee _ => .ok fee⟩

/-- A transfer signed by both keys of the permission of `sampleUpdate`. -/
def sampleSigned : Transaction := ⟨[1], 0, 0, [0], none, 0, 0, [[2], [1]]⟩

theorem multisig_sound_sample :
    ∃ s' r, runUpdates samplePlatform .allActive sampleSigners [sampleUpdate] = .ok s' ∧
      checkTxValues sampleSigning sampleFees .allActive s' UserAccount.empty sampleSigned [] = .ok r ∧
      ∃ p, getPermission [1] (permissionsOf s' [1]) 0 = .ok p ∧
        ∃ signedBy, Authorized sampleSigning sampleSigned [] p signedBy := by
  have hrun : runUpdates samplePlatform .allActive sampleSigners [sampleUpdate] = .ok _ := rfl
  have hcheck : checkTxValues sampleSigning sampleFees .allActive
      { sampleSigners with permissions := (sampleSigners.permissions.insert [1]
          [⟨0, .User, [], 2, [1], [⟨[1], 1⟩, ⟨[2], 1⟩]⟩, ownerPermission [1] 1]) }
      UserAccount.empty sampleSigned [] = .ok _ := rfl
  exact ⟨_, _, hrun, hcheck, multisig_sound rfl hrun hcheck⟩

end KleverGo.Transactions
