import KleverGo.Core.Bytes
import KleverGo.Lib.Bitmap
import KleverGo.Lib.Checked

/-!
# The signatures of a header

`VerifySignature` of `core/process/headerCheck/headerSignatureVerify.go`, with the thresholds of
`core/consensus/consensus.go` and the check of the padding of `tools/bitmap/bitmap.go`.  The nodes
coordinator, the fallback rule, the multi-signature scheme and the hash of a header are parameters.

* `verifySignature_spec` — what an accepted header says of its bitmap;
* `quorum_certificates_intersect` — **two headers that are accepted against one consensus group have
  signers in common, more than a third of the group under the normal threshold**.
-/

namespace KleverGo.Consensus

variable {K B V : Type}

inductive HeaderCheckError where
  | ErrNilPubKeysBitmap
  | ErrBlockProposerSignatureMissing
  | ErrWrongSizeBitmap
  | ErrBitmapWithPaddingNotZero
  | ErrNotEnoughSignatures
  /-- An error of the coordinator, the multi-signature scheme or the hasher. -/
  | other (message : String)
  deriving DecidableEq, Repr

/-- What `VerifySignature` reads of a header; `blockHeader` is the part that is signed. -/
structure Header (B : Type) where
  prevRandSeed : Bytes
  slot : UInt64
  epoch : UInt32
  isEpochStart : Bool
  pubKeysBitmap : Bitmap
  signature : Bytes
  blockHeader : B

/-- `HeaderSigVerifier` over keys `K`, block headers `B` and multi-signature verifiers `V`. -/
structure HeaderSigVerifier (K B V : Type) where
  getConsensusValidatorsPublicKeys : Bytes → UInt64 → UInt32 → Except HeaderCheckError (List K)
  shouldApplyFallbackValidation : Header B → Bool
  create : List K → Except HeaderCheckError V
  setAggregatedSig : V → Bytes → Except HeaderCheckError V
  verify : V → Bytes → Bitmap → Except HeaderCheckError Unit
  calculateHash : B → Except HeaderCheckError Bytes

def getPBFTThreshold (consensusSize : Nat) : Nat := consensusSize * 2 / 3 + 1

def getPBFTFallbackThreshold (consensusSize : Nat) : Nat := consensusSize * 1 / 2 + 1

def hasPaddingBitsSet (bitmap : Bitmap) (numValidBits : Nat) : Bool :=
  (List.range' numValidBits (bitmap.length * 8 - numValidBits)).any fun bitIndex =>
    bitmap.bit bitIndex

namespace HeaderSigVerifier

variable (hsv : HeaderSigVerifier K B V)

/-- The number of signatures a header needs. -/
def minNumRequiredSignatures (consensusSize : Nat) (header : Header B) : Nat :=
  if hsv.shouldApplyFallbackValidation header then getPBFTFallbackThreshold consensusSize
  else getPBFTThreshold consensusSize

def verifyConsensusSize (consensusPubKeys : List K) (header : Header B) :
    Except HeaderCheckError Unit := do
  let consensusSize := consensusPubKeys.length
  let bitmap := header.pubKeysBitmap
  let expectedBitmapSize := consensusSize / 8 + if consensusSize % 8 ≠ 0 then 1 else 0
  reject (bitmap.length ≠ expectedBitmapSize) .ErrWrongSizeBitmap
  reject (hasPaddingBitsSet bitmap consensusSize) .ErrBitmapWithPaddingNotZero
  reject (bitmap.onesCount < hsv.minNumRequiredSignatures consensusSize header)
    .ErrNotEnoughSignatures

/-- The consensus group of a header: the first block of an epoch is signed by the group of the epoch
before. -/
def consensusGroup (header : Header B) : Except HeaderCheckError (List K) :=
  let epoch := if header.isEpochStart = true ∧ header.epoch > 0 then header.epoch - 1 else header.epoch
  hsv.getConsensusValidatorsPublicKeys header.prevRandSeed header.slot epoch

def verifySignature (header : Header B) : Except HeaderCheckError Unit := do
  let bitmap := header.pubKeysBitmap
  reject (bitmap.length = 0) .ErrNilPubKeysBitmap
  reject (bitmap.getD 0 0 &&& 1 = 0) .ErrBlockProposerSignatureMissing
  let consensusPubKeys ← hsv.consensusGroup header
  hsv.verifyConsensusSize consensusPubKeys header
  let verifier ← hsv.create consensusPubKeys
  let verifier ← hsv.setAggregatedSig verifier header.signature
  let hash ← hsv.calculateHash header.blockHeader
  hsv.verify verifier hash bitmap

/-- The multi-signature scheme accepts only what every designated member has signed. -/
def MultiSigSound [DecidableEq K] (signed : K → Bytes → Prop) : Prop :=
  ∀ pubKeys fresh signature verifier hash bitmap, hsv.create pubKeys = .ok fresh →
    hsv.setAggregatedSig fresh signature = .ok verifier → hsv.verify verifier hash bitmap = .ok () →
    ∀ key ∈ Bitmap.membersAt pubKeys bitmap.positions, signed key hash

end HeaderSigVerifier

/-- The members of a group that a header designates. -/
def Header.signers [DecidableEq K] (header : Header B) (group : List K) : Finset K :=
  Bitmap.membersAt group header.pubKeysBitmap.positions

/-! ## An accepted header -/

variable {bitmap : Bitmap}

theorem lt_of_mem_positions {numValidBits : Nat}
    (h : hasPaddingBitsSet bitmap numValidBits = false) :
    ∀ position ∈ bitmap.positions, position < numValidBits := by
  intro position hposition
  obtain ⟨hrange, hbit⟩ := Finset.mem_filter.1 hposition
  by_contra hle
  rw [Finset.mem_range] at hrange
  refine (List.any_eq_false.1 h) position (List.mem_range'_1.2 ⟨?_, ?_⟩) hbit <;> omega

/-- What the checks of a header establish about its bitmap. -/
structure Certifies (hsv : HeaderSigVerifier K B V) (group : List K) (header : Header B) : Prop where
  length : header.pubKeysBitmap.length = group.length / 8 + if group.length % 8 ≠ 0 then 1 else 0
  members : ∀ position ∈ header.pubKeysBitmap.positions, position < group.length
  leader : 0 ∈ header.pubKeysBitmap.positions
  enough : hsv.minNumRequiredSignatures group.length header ≤ header.pubKeysBitmap.positions.card

variable {group : List K} {header : Header B}

theorem verifyConsensusSize_spec {hsv : HeaderSigVerifier K B V}
    (h : hsv.verifyConsensusSize group header = .ok ()) :
    header.pubKeysBitmap.length = group.length / 8 + (if group.length % 8 ≠ 0 then 1 else 0) ∧
      (∀ position ∈ header.pubKeysBitmap.positions, position < group.length) ∧
      hsv.minNumRequiredSignatures group.length header ≤ header.pubKeysBitmap.positions.card := by
  unfold HeaderSigVerifier.verifyConsensusSize at h
  simp only [bind_eq_ok, reject_eq_ok, exists_const, ne_eq, not_not, Bool.not_eq_true, not_lt] at h
  obtain ⟨hlength, hpadding, henough⟩ := h
  rw [← Bitmap.card_positions] at henough
  exact ⟨hlength, lt_of_mem_positions hpadding, henough⟩

/-- An accepted header is certified by its consensus group, and the multi-signature has been checked
for the members it designates. -/
theorem verifySignature_spec [DecidableEq K] {hsv : HeaderSigVerifier K B V}
    {signed : K → Bytes → Prop} (hsound : hsv.MultiSigSound signed)
    (hgroup : hsv.consensusGroup header = .ok group) (h : hsv.verifySignature header = .ok ()) :
    Certifies hsv group header ∧ ∃ hash, hsv.calculateHash header.blockHeader = .ok hash ∧
      ∀ key ∈ header.signers group, signed key hash := by
  unfold HeaderSigVerifier.verifySignature at h
  rw [hgroup] at h
  simp only [bind_eq_ok, reject_eq_ok, exists_const, Except.ok.injEq, exists_eq_left'] at h
  obtain ⟨hnonempty, hleader, _, hsize, fresh, hcreate, verifier, hset, hash, hhash, hverify⟩ := h
  obtain ⟨hlength, hmembers, henough⟩ := verifyConsensusSize_spec hsize
  have hfirst : 0 ∈ header.pubKeysBitmap.positions :=
    Finset.mem_filter.2 ⟨Finset.mem_range.2 (by omega), bne_iff_ne.2 hleader⟩
  exact ⟨⟨hlength, hmembers, hfirst, henough⟩, hash, hhash,
    hsound group fresh header.signature verifier hash header.pubKeysBitmap hcreate hset hverify⟩

theorem Certifies.leader_mem [DecidableEq K] {hsv : HeaderSigVerifier K B V}
    (h : Certifies hsv group header) :
    ∃ leader, group.head? = some leader ∧ leader ∈ header.signers group := by
  have hlength := h.members 0 h.leader
  refine ⟨group[0], ?_, Bitmap.mem_membersAt.2 ⟨0, h.leader, ?_⟩⟩
  · rw [List.head?_eq_getElem?, List.getElem?_eq_getElem hlength]
  · exact List.getElem?_eq_getElem hlength

/-! ## Two accepted headers -/

/-- Two certificates need together more signatures than the group has members. -/
theorem HeaderSigVerifier.minNumRequiredSignatures_overlap (hsv : HeaderSigVerifier K B V)
    (consensusSize : Nat) (first second : Header B) :
    consensusSize + (if hsv.shouldApplyFallbackValidation first ||
        hsv.shouldApplyFallbackValidation second then 1 else consensusSize / 3 + 1) ≤
      hsv.minNumRequiredSignatures consensusSize first +
        hsv.minNumRequiredSignatures consensusSize second := by
  unfold minNumRequiredSignatures getPBFTFallbackThreshold getPBFTThreshold
  generalize hsv.shouldApplyFallbackValidation first = fallback1
  generalize hsv.shouldApplyFallbackValidation second = fallback2
  cases fallback1 <;> cases fallback2 <;> simp <;> omega

/-- **Quorum certificates intersect.**  Two headers that `VerifySignature` accepts against one group
of distinct keys: the bitmap of each has the size of the group, designates only its members and
includes the leader; the signers they share are at least one, and more than a third of the group when
both met the normal threshold; and the signers they share have signed both. -/
theorem quorum_certificates_intersect [DecidableEq K] (hsv : HeaderSigVerifier K B V)
    (signed : K → Bytes → Prop) (hsound : hsv.MultiSigSound signed) (group : List K)
    (hdistinct : group.Nodup) (first second : Header B)
    (hfirst : hsv.consensusGroup first = .ok group)
    (hsecond : hsv.consensusGroup second = .ok group)
    (hacceptedFirst : hsv.verifySignature first = .ok ())
    (hacceptedSecond : hsv.verifySignature second = .ok ()) :
    (∀ header ∈ [first, second],
      header.pubKeysBitmap.length = group.length / 8 + (if group.length % 8 ≠ 0 then 1 else 0) ∧
      (∀ position ∈ header.pubKeysBitmap.positions, position < group.length) ∧
      ∃ leader, group.head? = some leader ∧ leader ∈ header.signers group) ∧
    (if hsv.shouldApplyFallbackValidation first || hsv.shouldApplyFallbackValidation second then 1
      else group.length / 3 + 1) ≤ (first.signers group ∩ second.signers group).card ∧
    ∃ firstHash secondHash, hsv.calculateHash first.blockHeader = .ok firstHash ∧
      hsv.calculateHash second.blockHeader = .ok secondHash ∧
      ∀ key ∈ first.signers group ∩ second.signers group,
        signed key firstHash ∧ signed key secondHash := by
  obtain ⟨hcert1, hash1, hhash1, hsigned1⟩ := verifySignature_spec hsound hfirst hacceptedFirst
  obtain ⟨hcert2, hash2, hhash2, hsigned2⟩ := verifySignature_spec hsound hsecond hacceptedSecond
  refine ⟨?_, ?_, hash1, hash2, hhash1, hhash2, fun key hkey => ?_⟩
  · intro header hheader
    have hcert : Certifies hsv group header := by
      rcases List.mem_pair.1 hheader with rfl | rfl
      · exact hcert1
      · exact hcert2
    exact ⟨hcert.length, hcert.members, hcert.leader_mem⟩
  · have hshared := Bitmap.card_add_card_le hdistinct hcert1.members hcert2.members
    have henough1 := hcert1.enough
    have henough2 := hcert2.enough
    have hoverlap := hsv.minNumRequiredSignatures_overlap group.length first second
    unfold Header.signers
    omega
  · obtain ⟨hkey1, hkey2⟩ := Finset.mem_inter.1 hkey
    exact ⟨hsigned1 key hkey1, hsigned2 key hkey2⟩

/-- A verifier for four members that accepts every multi-signature. -/
def lenientVerifier : HeaderSigVerifier Nat Unit Unit where
  getConsensusValidatorsPublicKeys _ _ _ := .ok [1, 2, 3, 4]
  shouldApplyFallbackValidation _ := false
  create _ := .ok ()
  setAggregatedSig _ _ := .ok ()
  verify _ _ _ := .ok ()
  calculateHash _ := .ok []

def headerWithBitmap (bitmap : Bitmap) : Header Unit where
  prevRandSeed := []
  slot := 1
  epoch := 0
  isEpochStart := false
  pubKeysBitmap := bitmap
  signature := []
  blockHeader := ()

/-- The signers `1, 2, 3` and `1, 3, 4` share as few members as two certificates can. -/
theorem quorum_certificates_intersect_four :
    lenientVerifier.verifySignature (headerWithBitmap [7]) = .ok () ∧
      lenientVerifier.verifySignature (headerWithBitmap [13]) = .ok () ∧
      4 / 3 + 1 ≤ ((headerWithBitmap [7]).signers [1, 2, 3, 4] ∩
        (headerWithBitmap [13]).signers [1, 2, 3, 4]).card := by
  have hfirst : lenientVerifier.verifySignature (headerWithBitmap [7]) = .ok () := by decide
  have hsecond : lenientVerifier.verifySignature (headerWithBitmap [13]) = .ok () := by decide
  exact ⟨hfirst, hsecond, (quorum_certificates_intersect lenientVerifier (fun _ _ => True)
    (fun _ _ _ _ _ _ _ _ _ _ _ => trivial) [1, 2, 3, 4] (by decide) _ _ rfl rfl hfirst hsecond).2.1⟩

end KleverGo.Consensus
