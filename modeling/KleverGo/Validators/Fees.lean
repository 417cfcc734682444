import KleverGo.Validators.Bookings
import KleverGo.Validators.Registry

/-!
# Fees of blocks

What the blocks of an epoch credit waits on the current keys of the validators (`currentFees`): the
fees of a member of the committee go to the current key of its validator, also when the key that was
elected has been revoked since.  `updateValidatorInfoOnSuccessfulBlock_fees`: **a block adds its
fees, all of them**, when its leader signed and its keys belong or belonged to validators.

Sums are sums of amounts, modulo `2 ^ 64` as the source adds them.
-/

namespace KleverGo.Validators

open List

open Staking (Gains)

/-- The fees that wait on the current keys of the validators. -/
def currentFees (s : Chain) : Int64 :=
  s.validators.validators.sumBy fun _ val => (peerOf s val.blsPubKey).accumulatedFees

def pendingTotal (v : ValidatorStore) : Int64 := v.pendingRewards.sumBy fun _ amount => amount

/-- No fees wait on a revoked key. -/
def RevokedClear (s : Chain) : Prop :=
  ∀ key, (peerOf s key).revoked = true → (peerOf s key).accumulatedFees = 0

section
variable {s s' : Chain} {x key : Bytes} {val : ValidatorData} {p : PeerAccount}

/-- Rewriting the account of a current key moves the fees by what it gains. -/
theorem currentFees_updatePeer (hs : Registry s)
    (hval : s.validators.validators.lookup x = some val) :
    currentFees (s.updatePeer val.blsPubKey p) =
      currentFees s + (p.accumulatedFees - (peerOf s val.blsPubKey).accumulatedFees) := by
  have hsum := FMap.sumBy_update (m := s.validators.validators)
    (f := fun _ w => (peerOf s w.blsPubKey).accumulatedFees)
    (g := fun _ w => (peerOf (s.updatePeer val.blsPubKey p) w.blsPubKey).accumulatedFees) hval ?_
  · rw [peerOf_updatePeer_self] at hsum
    exact hsum
  · intro y w hw hne
    rw [peerOf_updatePeer_ne]
    exact fun hc => hne (hs.key_injective hw hval hc)

theorem currentFees_storeValidator (hval : s.validators.validators.lookup x = some val)
    {w : ValidatorData} (hkey : w.blsPubKey = val.blsPubKey) :
    currentFees (storeValidator s x w) = currentFees s := by
  have hsum := FMap.sumBy_write (fun _ c => (peerOf s c.blsPubKey).accumulatedFees)
    s.validators.validators x w
  rw [hval, Option.elim_some, hkey, sub_self, add_zero] at hsum
  exact hsum

theorem RevokedClear.updatePeer (h : RevokedClear s)
    (hp : p.revoked = true → p.accumulatedFees = 0) : RevokedClear (s.updatePeer key p) := by
  intro k hk
  rw [peerOf_updatePeer] at hk ⊢
  split at hk
  · rename_i heq
    rw [if_pos heq]
    exact hp hk
  · rename_i hne
    rw [if_neg hne]
    exact h k hk

end

/-! ## Crediting a block -/

variable (action : ValidatorAction)

/-- The fees of one member of a block. -/
def feesOf (leaderFees validatorFees : Int64) : Int64 :=
  match action with
  | .leaderSuccess => leaderFees
  | .validatorSuccess => validatorFees
  | .leaderFail | .validatorIgnoredSignature => 0

theorem creditAccount_fees (l v : Int64) (p : PeerAccount) :
    (creditAccount action l v p).accumulatedFees = p.accumulatedFees + feesOf action l v := by
  cases action <;> simp [creditAccount, feesOf]

/-- The bit of a member, where the bitmap has it. -/
def signedBit (signingBitmap : Bytes) (i : Nat) : Bool :=
  (signingBitmap[i / 8]?).elim false fun byte => byte.toNat.testBit (i % 8)

theorem haveSigned_eq_ok {bitmap : Bytes} {i : Nat} {b : Bool} (h : haveSigned bitmap i = .ok b) :
    b = signedBit bitmap i := by
  simp only [haveSigned, bind_eq_ok, orError_eq_ok, pure_eq_ok] at h
  obtain ⟨byte, hbyte, rfl⟩ := h
  rw [signedBit, hbyte]
  rfl

/-- The fees of the member at a position. -/
def memberFees (bitmap : Bytes) (l v : Int64) (i : Nat) : Int64 :=
  feesOf (computeValidatorActionType (decide (i = 0)) (signedBit bitmap i)) l v

/-- A key that belongs or belonged to a validator. -/
def Known (s : Chain) (key : Bytes) : Prop := (peerOf s key).ownerAddress ≠ []

section
variable {R : Rater} {fc : ForkController} {s s' : Chain}

/-- Keys, owners and the records of the validators stay as they are. -/
structure SameOwners (s s' : Chain) : Prop where
  peers : ∀ k, (peerOf s' k).identity = (peerOf s k).identity
  validators : s'.validators = s.validators

theorem SameOwners.registry (h : SameOwners s s') (hs : Registry s) : Registry s' :=
  hs.congr h.peers fun _ => by rw [h.validators]

theorem SameOwners.known (h : SameOwners s s') {key : Bytes} (hk : Known s key) : Known s' key := by
  have howner : (peerOf s' key).ownerAddress = (peerOf s key).ownerAddress :=
    (Prod.ext_iff.1 (Prod.ext_iff.1 (h.peers key)).2).1
  unfold Known
  rw [howner]
  exact hk

theorem SameOwners.updatePeer {key : Bytes} {p : PeerAccount}
    (hp : p.identity = (peerOf s key).identity) : SameOwners s (s.updatePeer key p) := by
  refine ⟨fun k => ?_, rfl⟩
  rw [peerOf_updatePeer]
  split
  · rename_i hk
    rw [hk, hp]
  · rfl

theorem SameOwners.trans {t : Chain} (h1 : SameOwners s t) (h2 : SameOwners t s') :
    SameOwners s s' :=
  ⟨fun k => (h2.peers k).trans (h1.peers k), h2.validators.trans h1.validators⟩

theorem peerForEpochAccounting_current {key accountingKey : Bytes}
    (hv7 : fc.fixAuditChangesV7 = true) (hs : Registry s) (hkey : Known s key)
    (h : peerForEpochAccounting fc s key (peerOf s key) = .ok accountingKey) :
    ∃ x val, s.validators.validators.lookup x = some val ∧ accountingKey = val.blsPubKey := by
  obtain ⟨hself, val, hval, hcurrent⟩ := hs.bound key hkey
  refine ⟨_, val, hval, ?_⟩
  unfold peerForEpochAccounting at h
  cases hr : (peerOf s key).revoked with
  | false =>
    rw [if_pos (Or.inr (by rw [hr]; rfl))] at h
    cases h
    exact (hcurrent hr).symm
  | true =>
    rw [if_neg (by simp [hv7, hr])] at h
    simp only [getValidator, hval, orError, bind_eq_ok] at h
    obtain ⟨w, hw, h⟩ := h
    cases hw
    split at h
    · -- a revoked key is not the current one
      rename_i hsame
      have hnot := hs.not_revoked hval
      rw [hsame, hself, hr] at hnot
      cases hnot
    · cases h
      rfl

variable {bitmap : Bytes} {l v : Int64}

/-- Crediting a member adds its fees to what waits on the current keys. -/
theorem creditElectedValidator_fees {member : Bytes × Nat} (hv7 : fc.fixAuditChangesV7 = true)
    (hs : Registry s) (hclear : RevokedClear s) (hkey : Known s member.1)
    (h : creditElectedValidator R fc bitmap l v s member = .ok s') :
    SameOwners s s' ∧ RevokedClear s' ∧
      currentFees s' = currentFees s + memberFees bitmap l v member.2 := by
  simp only [creditElectedValidator, bind_eq_ok, loadPeer_eq_ok, pure_eq_ok] at h
  obtain ⟨_, ⟨-, rfl⟩, accountingKey, haccounting, _, ⟨-, rfl⟩, signed, hsigned, _, ⟨-, rfl⟩, rfl⟩ := h
  obtain ⟨x, val, hval, rfl⟩ := peerForEpochAccounting_current hv7 hs hkey haccounting
  have haction : feesOf (computeValidatorActionType (decide (member.2 = 0)) signed) l v =
      memberFees bitmap l v member.2 := by
    rw [memberFees, haveSigned_eq_ok hsigned]
  generalize computeValidatorActionType (decide (member.2 = 0)) signed = action at haction ⊢
  -- the account that keeps the fees first, then the rating of the elected key
  have hsame : SameOwners s
      (s.updatePeer val.blsPubKey (creditAccount action l v (peerOf s val.blsPubKey))) :=
    SameOwners.updatePeer (by cases action <;> rfl)
  have hcleared : RevokedClear
      (s.updatePeer val.blsPubKey (creditAccount action l v (peerOf s val.blsPubKey))) := by
    refine hclear.updatePeer fun hr => ?_
    have hlive := hs.not_revoked hval
    cases action <;> exact absurd (hlive.symm.trans hr) Bool.false_ne_true
  have hfees : currentFees
      (s.updatePeer val.blsPubKey (creditAccount action l v (peerOf s val.blsPubKey))) =
      currentFees s + memberFees bitmap l v member.2 := by
    rw [currentFees_updatePeer hs hval, creditAccount_fees, haction]
    abel
  refine ⟨hsame.trans (SameOwners.updatePeer rfl), hcleared.updatePeer fun hr => hcleared _ hr, ?_⟩
  refine Eq.trans ?_ hfees
  refine FMap.sumBy_congr fun y w _ => ?_
  rw [peerOf_updatePeer]
  split
  · rename_i hk
    rw [hk]
  · rfl

variable {n total : Nat}

theorem countSigned_eq_ok (h : countSigned bitmap n = .ok total) :
    total = (range n).countP (signedBit bitmap) := by
  have hrun := foldlM_rule (P := fun rest t => t + rest.countP (signedBit bitmap) =
    (range n).countP (signedBit bitmap)) ?_ _ 0 total (Nat.zero_add _) h
  · exact hrun
  intro t i rest t' ht hstep
  simp only [bind_eq_ok, pure_eq_ok] at hstep
  obtain ⟨signed, hsigned, rfl⟩ := hstep
  rw [countP_cons, ← haveSigned_eq_ok hsigned] at ht
  rw [← ht]
  split <;> omega

theorem nsmul_eq_mul_ofNat (n : Nat) (v : Int64) : n • v = v * Int64.ofNat n := by
  induction n with
  | zero => simp
  | succ n ih =>
    rw [succ_nsmul, ih, Int64.ofNat_add, Int64.mul_add]
    simp

theorem sum_memberFees_validators (l v : Int64) (ks : List Nat) :
    ((ks.map Nat.succ).map (memberFees bitmap l v)).sum =
      (ks.map Nat.succ).countP (signedBit bitmap) • v := by
  induction ks with
  | nil => simp
  | cons i ks ih =>
    rw [map_cons, map_cons, sum_cons, ih, countP_cons, add_nsmul, add_comm]
    cases hi : signedBit bitmap i.succ <;> simp [memberFees, feesOf, computeValidatorActionType, hi]

variable {P : Platform} {params : Parameters} {fees : Int64}

/-- The members of a block get its fees, all of them, when the leader signed. -/
theorem sum_memberFees (hn : n ≠ 0) (hleader : signedBit bitmap 0 = true)
    (hcount : countSigned bitmap n = .ok total)
    (hfees : blockFees P params fees total = .ok (l, v)) :
    ((range n).map (memberFees bitmap l v)).sum = fees := by
  obtain ⟨m, rfl⟩ := Nat.exists_eq_succ_of_ne_zero hn
  have htotal := countSigned_eq_ok hcount
  rw [range_succ_eq_map, countP_cons, hleader, if_pos rfl] at htotal
  rw [range_succ_eq_map, map_cons, sum_cons, sum_memberFees_validators]
  have hzero : memberFees bitmap l v 0 = l := by
    simp [memberFees, hleader, computeValidatorActionType, feesOf]
  rw [hzero]
  generalize ((range m).map Nat.succ).countP (signedBit bitmap) = k at htotal ⊢
  subst htotal
  unfold blockFees at hfees
  split at hfees
  · simp only [splitAccumulatedFees, bind_eq_ok, pure_eq_ok, Prod.mk.injEq] at hfees
    obtain ⟨share, -, rfl, rfl⟩ := hfees
    have hk : Int64.ofNat (k + 1) - 1 = Int64.ofNat k := by
      rw [Int64.ofNat_add]
      exact add_sub_cancel_right _ _
    rw [hk, nsmul_eq_mul_ofNat, sub_add_cancel]
  · cases hfees
    rw [nsmul_zero, add_zero]

/-- **A successful block** adds its fees to what waits on the current keys. -/
theorem updateValidatorInfoOnSuccessfulBlock_fees {validatorList : List Bytes}
    (hv7 : fc.fixAuditChangesV7 = true) (hs : Registry s) (hclear : RevokedClear s)
    (hlist : validatorList ≠ []) (hleader : signedBit bitmap 0 = true)
    (hknown : ∀ key ∈ validatorList, Known s key)
    (h : updateValidatorInfoOnSuccessfulBlock R fc P params validatorList bitmap fees s = .ok s') :
    SameOwners s s' ∧ RevokedClear s' ∧ currentFees s' = currentFees s + fees := by
  simp only [updateValidatorInfoOnSuccessfulBlock, bind_eq_ok] at h
  obtain ⟨total, hcount, ⟨l, v⟩, hfees, hfold⟩ := h
  -- what is still to come is what is still missing
  have hrun := foldlM_rule (P := fun rest t => (∀ member ∈ rest, Known s member.1) ∧
    SameOwners s t ∧ RevokedClear t ∧ currentFees t +
      (rest.map fun member => memberFees bitmap l v member.2).sum = currentFees s + fees)
    ?_ _ s s' ?_ hfold
  · obtain ⟨-, hsame, hcleared, hsum⟩ := hrun
    rw [map_nil, sum_nil, add_zero] at hsum
    exact ⟨hsame, hcleared, hsum⟩
  · rintro t member rest t' ⟨hk, hsame, hcleared, hsum⟩ hstep
    obtain ⟨hsame', hcleared', hsum'⟩ := creditElectedValidator_fees hv7 (hsame.registry hs)
      hcleared (hsame.known (hk member mem_cons_self)) hstep
    refine ⟨fun c hc => hk c (mem_cons_of_mem _ hc), hsame.trans hsame', hcleared', ?_⟩
    rw [← hsum, hsum', map_cons, sum_cons, add_assoc]
  · refine ⟨fun member hmem => ?_, ⟨fun _ => rfl, rfl⟩, hclear, ?_⟩
    · exact hknown member.1 (fst_mem_of_mem_zipIdx hmem)
    have hindices : (validatorList.zipIdx.map fun member => memberFees bitmap l v member.2) =
        (range validatorList.length).map (memberFees bitmap l v) := by
      rw [range_eq_range', ← zipIdx_map_snd 0 validatorList, map_map]
      rfl
    rw [hindices, sum_memberFees (length_pos_iff.2 hlist).ne' hleader hcount hfees]

end

end KleverGo.Validators
