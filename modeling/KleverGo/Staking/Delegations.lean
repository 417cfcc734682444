import KleverGo.Staking.BucketWrites

/-!
# Delegations, on both sides

The bucket of a user names the validator it is delegated to (`delegationOf`), and the validator
books the bucket (`Validators.bookingOf`).

* `Bookings`: the two directories mirror each other and the totals of the validators agree with
  the bookings.
* `bookings_match_buckets`: **every run of staking calls and epoch ends before the last epoch keeps
  them so.**
* `undelegate_at_last_epoch`: the last epoch is the mark of an active booking, so that one
  undelegated in that epoch still looks active.

A bucket is known to its owner by a hash of the owner's address, so that with an injective hash no
two users have buckets under one key.
-/

namespace KleverGo.Staking

open Validators List Function

open Validators (bookingOf Balanced)

/-! ## Keys -/

/-- A key under which a user's bucket of an asset is stored. -/
def IsBucketKey (P : Platform) (u x key : Bytes) : Prop :=
  u.length = P.addressLen ∧
    ∃ seed nonce index amount, key = hexEncode (toBucketID P.hash seed u x nonce index amount)

/-- The two assets whose buckets have hashed identifiers. -/
def IsNative (x : Bytes) : Prop := x = KLVIdentifier ∨ x = KFIIdentifier

theorem hexEncode_length : ∀ b : Bytes, (hexEncode b).length = 2 * b.length
  | [] => rfl
  | c :: rest => by
    have ih := hexEncode_length rest
    simp only [hexEncode, flatMap_cons, length_append, length_cons, length_nil] at ih ⊢
    omega

theorem IsNative.length {x : Bytes} (h : IsNative x) : x.length = 3 := by
  rcases h with rfl | rfl <;> rfl

/-- A key belongs to one user and one asset, by the injectivity of the hash: all that follows
the seed in the hashed text has a fixed length. -/
theorem IsBucketKey.unique {P : Platform} {u u' x x' key : Bytes} (hinj : Injective P.hash)
    (hx : IsNative x) (hx' : IsNative x') (h : IsBucketKey P u x key)
    (h' : IsBucketKey P u' x' key) : u = u' ∧ x = x' := by
  obtain ⟨hlen, seed, nonce, index, amount, rfl⟩ := h
  obtain ⟨hlen', seed', nonce', index', amount', heq⟩ := h'
  have hfield : ∀ n m : UInt64,
      (hexEncode (bigEndian64 n)).length = (hexEncode (bigEndian64 m)).length := by
    intro n m
    rw [hexEncode_length, hexEncode_length]
    rfl
  have hpre := hinj (hexEncode_injective heq)
  have hpre := (append_inj_left' hpre (hfield _ _))
  have hpre := (append_inj_left' hpre (hfield _ _))
  have hpre := (append_inj_left' hpre (hfield _ _))
  obtain ⟨hrest, hasset⟩ := append_inj' hpre (hx.length.trans hx'.length.symm)
  exact ⟨append_inj_right' hrest (hlen.trans hlen'.symm), hasset⟩

/-! ## The invariant -/

/-- The bookings of the validators and the delegations named by the buckets are one relation, and
the totals of the validators agree with the bookings. -/
structure Bookings (P : Platform) (s : Chain) : Prop where
  balanced : Balanced s.validators
  mirrored : Mirrored (bookingOf s.validators) (delegationOf s)
  keyed : ∀ u x, IsNative x → ∀ key b, (bucketsOf s u x).lookup key = some b →
    IsBucketKey P u x key
  others : ∀ u x, x ≠ KLVIdentifier → ∀ key b, (bucketsOf s u x).lookup key = some b →
    b.delegation = []

section
variable {P : Platform} {s s' : Chain} {u x key : Bytes} {b : UserBucket}

theorem delegationOf_writes (h : WritesBucket u KLVIdentifier key b s s') :
    delegationOf s' = write (delegationOf s) u key
      (if b.unstakedEpoch = DefaultUnstakedEpoch ∧ b.delegation ≠ [] then
        some (b.delegation, b.value) else none) := by
  funext w k
  unfold delegationOf namedEntry write
  rw [h]
  by_cases hw : w = u ∧ k = key
  · rw [if_pos ⟨hw.1, rfl, hw.2⟩, if_pos hw]
    rfl
  · rw [if_neg fun hc => hw ⟨hc.1, hc.2.2⟩, if_neg hw]

theorem delegationOf_writes_other (hx : x ≠ KLVIdentifier) (h : WritesBucket u x key b s s') :
    delegationOf s' = delegationOf s := by
  funext w k
  unfold delegationOf namedEntry
  rw [h, if_neg fun hc => hx hc.2.1.symm]

/-- Writing one bucket keeps the keys and the delegations of the other assets. -/
theorem Bookings.of_writes (hs : Bookings P s) (h : WritesBucket u x key b s s')
    (hkey : IsNative x → IsBucketKey P u x key) (hplain : x ≠ KLVIdentifier → b.delegation = [])
    (hbalanced : Balanced s'.validators)
    (hmirrored : Mirrored (bookingOf s'.validators) (delegationOf s')) : Bookings P s' where
  balanced := hbalanced
  mirrored := hmirrored
  keyed w y hy k c hc := by
    rw [h] at hc
    split at hc
    · rename_i hwritten
      obtain ⟨rfl, rfl, rfl⟩ := hwritten
      exact hkey hy
    · exact hs.keyed w y hy k c hc
  others w y hy k c hc := by
    rw [h] at hc
    split at hc
    · rename_i hwritten
      obtain ⟨-, rfl, -⟩ := hwritten
      cases hc
      exact hplain hy
    · exact hs.others w y hy k c hc

theorem Bookings.booked (hs : Bookings P s) (hb : (bucketsOf s u KLVIdentifier).lookup key = some b)
    (hstaked : b.unstakedEpoch = DefaultUnstakedEpoch) (hdelegation : b.delegation ≠ []) :
    bookingOf s.validators b.delegation key = some (u, b.value) :=
  (hs.mirrored _ _ _ _).2 (namedEntry_eq_some.2 ⟨b, hb, hstaked, hdelegation, rfl⟩)

/-- Who holds a bucket under a key is the one a booking under that key names. -/
theorem Bookings.booker (hs : Bookings P s) (hinj : Injective P.hash) {e : Bytes × Int64}
    {y : Bytes} (hb : (bucketsOf s u KLVIdentifier).lookup key = some b)
    (he : bookingOf s.validators y key = some e) :
    e.1 = u ∧ b.unstakedEpoch = DefaultUnstakedEpoch ∧ b.delegation = y ∧ y ≠ [] := by
  obtain ⟨b', hb', hstaked, hdelegation, heq⟩ :=
    namedEntry_eq_some.1 ((hs.mirrored y e.1 key e.2).1 he)
  obtain ⟨hu, -⟩ := (hs.keyed e.1 _ (.inl rfl) key b' hb').unique hinj (.inl rfl) (.inl rfl)
    (hs.keyed u _ (.inl rfl) key b hb)
  rw [hu, hb] at hb'
  cases hb'
  have hy : b.delegation = y := (Prod.ext_iff.1 heq).1.symm
  exact ⟨hu, hstaked, hy, hy ▸ hdelegation⟩

end

/-! ## The calls keep it -/

section
variable {P : Platform} {params : Parameters} {ctx : KappContext} {s s' : Chain} {sender : Bytes}

theorem lastEpoch_eq : DefaultUndelegatedEpoch = DefaultUnstakedEpoch := rfl

/-- A bucket that is not staked, or names no validator, is not in the directory. -/
theorem namedEntry_none {m : FMap Bytes UserBucket} {key : Bytes}
    (h : (m.lookup key).elim [] (·.delegation) = []) : namedEntry m key = none := by
  unfold namedEntry
  cases hb : m.lookup key with
  | none => rfl
  | some b =>
    rw [hb, Option.elim_some] at h
    simp [h]

theorem kappFreeze_bookings {tc : FreezeContract} (hs : Bookings P s)
    (hlen : sender.length = P.addressLen)
    (h : kappFreeze P .allActive params ctx s sender tc = .ok s') : Bookings P s' := by
  obtain ⟨hv, hmerge, b, hplain, hw⟩ := kappFreeze_effect h
  refine hs.of_writes hw (fun hx => ?_) (fun _ => hplain) (hv ▸ hs.balanced) ?_
  · refine ⟨hlen, ctx.randSeed, ctx.txNonce, ctx.contractID, tc.amount, ?_⟩
    rcases hx with hx | hx <;> simp [parsedBucketID, freezeBucketID, hx]
  rw [hv]
  by_cases hx : UserAccount.assetOf tc.assetID = KLVIdentifier
  · -- the bucket named no validator and names none now
    have hnone := namedEntry_none (hmerge hx)
    rw [hx] at hw hnone
    rw [delegationOf_writes hw, if_neg fun hc => hc.2 hplain, write_eq_self]
    · exact hs.mirrored
    · exact hnone
  · rw [delegationOf_writes_other hx hw]
    exact hs.mirrored

theorem kappUnfreeze_bookings {tc : UnfreezeContract} (hs : Bookings P s)
    (hepoch : ctx.epoch ≠ DefaultUnstakedEpoch)
    (h : kappUnfreeze P .allActive ctx s sender tc = .ok s') : Bookings P s' := by
  obtain ⟨b, hb, hstaked, hnone, hsome⟩ := kappUnfreeze_effect h
  by_cases hd : b.delegation = []
  · obtain ⟨hv, hw⟩ := hnone hd
    refine hs.of_writes hw (fun hx => hs.keyed _ _ hx _ b hb) (fun _ => hd) (hv ▸ hs.balanced) ?_
    rw [hv]
    by_cases hx : UserAccount.assetOf tc.assetID = KLVIdentifier
    · rw [hx] at hw hb
      rw [delegationOf_writes hw, if_neg fun hc => hc.2 hd, write_eq_self]
      · exact hs.mirrored
      · refine namedEntry_none ?_
        rw [hb]
        exact hd
    · rw [delegationOf_writes_other hx hw]
      exact hs.mirrored
  · have hx : UserAccount.assetOf tc.assetID = KLVIdentifier := by
      by_contra hx
      exact hd (hs.others _ _ hx _ b hb)
    obtain ⟨hundelegate, hw⟩ := hsome hd hx
    obtain ⟨e, he, hdirectory, hbalanced⟩ := undelegate_spec (lastEpoch_eq ▸ hepoch)
      hundelegate
    have hkey : parsedBucketID KLVIdentifier tc.bucketID = hexEncode tc.bucketID := by
      simp [parsedBucketID]
    rw [hx, hkey] at hw hb
    have hbooked := hs.booked hb hstaked hd
    rw [he] at hbooked
    cases hbooked
    refine hs.of_writes hw (fun hx => hs.keyed _ _ hx _ b hb) (fun hc => absurd rfl hc)
      (hbalanced hs.balanced rfl) ?_
    rw [hdirectory, delegationOf_writes hw, if_neg fun hc => hc.2 rfl]
    exact hs.mirrored.unlink he

theorem kappUndelegate_bookings {bucketID : Bytes} (hinj : Injective P.hash) (hs : Bookings P s)
    (hepoch : ctx.epoch ≠ DefaultUnstakedEpoch)
    (h : kappUndelegate P .allActive ctx s sender bucketID = .ok s') : Bookings P s' := by
  obtain ⟨b, hb, hd, hundelegate, hw⟩ := kappUndelegate_effect h
  obtain ⟨⟨booker, value⟩, he, hdirectory, hbalanced⟩ :=
    undelegate_spec (lastEpoch_eq ▸ hepoch) hundelegate
  obtain ⟨rfl, -⟩ := hs.booker hinj hb he
  refine hs.of_writes hw (fun hx => hs.keyed _ _ hx _ b hb) (fun hc => absurd rfl hc)
    (hbalanced hs.balanced rfl) ?_
  rw [hdirectory, delegationOf_writes hw, if_neg fun hc => hc.2 rfl]
  exact hs.mirrored.unlink he

theorem leaveCurrent_bookings {bucketID : Bytes} {b : UserBucket} {v : ValidatorStore}
    (hs : Bookings P s) (hepoch : ctx.epoch ≠ DefaultUnstakedEpoch)
    (hb : (bucketsOf s sender KLVIdentifier).lookup (hexEncode bucketID) = some b)
    (hstaked : b.unstakedEpoch = DefaultUnstakedEpoch)
    (h : leaveCurrent .allActive s.validators ctx.epoch b.delegation sender bucketID =
      .ok v) :
    Balanced v ∧
    Mirrored (bookingOf v) (write (delegationOf s) sender (hexEncode bucketID) none) ∧
    ∀ y, bookingOf s.validators y (hexEncode bucketID) = none →
      bookingOf v y (hexEncode bucketID) = none := by
  unfold leaveCurrent at h
  split at h
  · rename_i hd
    cases h
    refine ⟨hs.balanced, ?_, fun _ => id⟩
    rw [write_eq_self]
    · exact hs.mirrored
    · refine namedEntry_none ?_
      rw [hb]
      exact hd
  · rename_i hd
    rw [withCode_eq_ok] at h
    obtain ⟨e, he, hdirectory, hbalanced⟩ := undelegate_spec (lastEpoch_eq ▸ hepoch) h
    have hbooked := hs.booked hb hstaked hd
    rw [he] at hbooked
    cases hbooked
    refine ⟨hbalanced hs.balanced rfl, hdirectory ▸ hs.mirrored.unlink he, fun y hy => ?_⟩
    rw [hdirectory]
    unfold write
    split
    · rfl
    · exact hy

theorem kappDelegate_bookings {tc : DelegateContract} (hinj : Injective P.hash) (hs : Bookings P s)
    (hlen : sender.length = P.addressLen) (hepoch : ctx.epoch ≠ DefaultUnstakedEpoch)
    (h : kappDelegate P .allActive ctx s sender tc = .ok s') : Bookings P s' := by
  obtain ⟨hto, hsender, b, v, hb, hstaked, hne, hleave, hdelegate, hw⟩ := kappDelegate_effect h
  have hto' : tc.toAddress ≠ [] := by
    intro hc
    rw [hc, ← hlen] at hto
    exact hsender (length_eq_zero_iff.1 hto.symm)
  -- a booking under this key on the target would be the sender's
  have hfree : bookingOf s.validators tc.toAddress (hexEncode tc.bucketID) = none := by
    cases he : bookingOf s.validators tc.toAddress (hexEncode tc.bucketID) with
    | none => rfl
    | some e =>
      obtain ⟨-, -, heq, -⟩ := hs.booker hinj hb he
      exact absurd heq.symm hne
  obtain ⟨hbalanced, hmirrored, hstill⟩ := leaveCurrent_bookings hs hepoch hb hstaked hleave
  rw [replacedBooking_none hfree] at hdelegate
  obtain ⟨hdirectory, hbalanced'⟩ := delegate_spec (hstill _ hfree) rfl hdelegate
  refine hs.of_writes hw (fun hx => hs.keyed _ _ hx _ b hb) (fun hc => absurd rfl hc)
    (hbalanced' hbalanced) ?_
  rw [hdirectory, delegationOf_writes hw, if_pos ⟨hstaked, hto'⟩,
    ← write_write (delegationOf s) sender (hexEncode tc.bucketID) none]
  exact hmirrored.link (hstill _ hfree) (write_self _ _ _ _)

theorem kappWithdraw_bookings {asset : Option Bytes} (hs : Bookings P s)
    (hepoch : ctx.epoch ≠ DefaultUnstakedEpoch)
    (h : kappWithdraw P .allActive ctx s sender asset = .ok s') : Bookings P s' := by
  obtain ⟨hv, hkept⟩ := kappWithdraw_effect hepoch h
  have hnamed : delegationOf s' = delegationOf s := by
    funext u key
    refine Option.ext fun e => ?_
    unfold delegationOf
    rw [namedEntry_eq_some, namedEntry_eq_some]
    refine exists_congr fun b => and_congr_left fun hb => ⟨(hkept _ _ _ _).1, fun hold => ?_⟩
    exact (hkept _ _ _ _).2 hold hb.1
  exact ⟨hv ▸ hs.balanced, hv ▸ hnamed ▸ hs.mirrored,
    fun u x hx key b hb => hs.keyed u x hx key b ((hkept u x key b).1 hb),
    fun u x hx key b hb => hs.others u x hx key b ((hkept u x key b).1 hb)⟩

theorem epochEnd_bookings {epoch : UInt32} {infos : List ValidatorInfo} (hs : Bookings P s)
    (hepoch : epoch ≠ DefaultUnstakedEpoch)
    (h : processEconomicsEndOfEpoch .allActive params epoch infos s = .ok s') :
    Bookings P s' := by
  have hkeeps := processEconomicsEndOfEpoch_bookings (lastEpoch_eq ▸ hepoch) h
  have hbuckets : bucketsOf s' = bucketsOf s := by
    funext u x
    rw [bucketsOf, bucketsOf, hkeeps.users]
  have hnamed : delegationOf s' = delegationOf s := by
    funext u key
    rw [delegationOf, delegationOf, hbuckets]
  exact ⟨hkeeps.balanced hs.balanced, hkeeps.bookings ▸ hnamed ▸ hs.mirrored,
    hbuckets ▸ hs.keyed, hbuckets ▸ hs.others⟩

end

/-! ## Runs -/

/-- A staking call, or the end of an epoch. -/
inductive DelegationStep where
  | call (tx : StakingTx)
  | epochEnd (params : Parameters) (epoch : UInt32) (infos : List ValidatorInfo)

section
variable (P : Platform) (fc : ForkController)

def execDelegation (s : Chain) : DelegationStep → Except TxError Chain
  | .call tx => execStaking P fc s tx
  | .epochEnd params epoch infos =>
    withCode .Fail (processEconomicsEndOfEpoch fc params epoch infos s)

def runDelegation (s : Chain) (steps : List DelegationStep) : Except TxError Chain :=
  steps.foldlM (execDelegation P fc) s

end

/-- The sender of a call has an address of the length the chain uses, and the step comes before
the last epoch. -/
def DelegationStep.Admissible (P : Platform) : DelegationStep → Prop
  | .call tx => tx.sender.length = P.addressLen ∧ tx.ctx.epoch ≠ DefaultUnstakedEpoch
  | .epochEnd _ epoch _ => epoch ≠ DefaultUnstakedEpoch

instance (P : Platform) : (step : DelegationStep) → Decidable (step.Admissible P)
  | .call tx =>
    inferInstanceAs (Decidable (tx.sender.length = P.addressLen ∧ tx.ctx.epoch ≠ DefaultUnstakedEpoch))
  | .epochEnd _ epoch _ => inferInstanceAs (Decidable (epoch ≠ DefaultUnstakedEpoch))

/-- The stake of every validator is what its active bookings add up to, the self stake what its
owner's bookings add up to, and a staked bucket names a validator exactly if that validator has
booked it.  Buckets of other assets than KLV name no validator. -/
structure BookingsMatch (s : Chain) : Prop where
  stake : ∀ x val, s.validators.validators.lookup x = some val →
    val.totalStake = bookedStake (getValidatorBuckets s.validators x) ∧
    val.selfStake =
      ownStake val.ownerAddress (getValidatorBuckets s.validators x)
  names : ∀ u y, IsNative y → ∀ key b, (bucketsOf s u y).lookup key = some b →
    b.unstakedEpoch = DefaultUnstakedEpoch → ∀ x, x ≠ [] →
    (b.delegation = x ↔
      ∃ booking, (getValidatorBuckets s.validators x).lookup key = some booking ∧
        booking.undelegatedEpoch = DefaultUndelegatedEpoch ∧ booking.address = u ∧
        booking.value = b.value)
  others : ∀ u y, y ≠ KLVIdentifier → ∀ key b, (bucketsOf s u y).lookup key = some b →
    b.delegation = []

theorem bookingOf_eq_some {v : ValidatorStore} {x key u : Bytes} {w : Int64} :
    bookingOf v x key = some (u, w) ↔
      ∃ booking, (getValidatorBuckets v x).lookup key = some booking ∧
        booking.undelegatedEpoch = DefaultUndelegatedEpoch ∧ booking.address = u ∧
        booking.value = w := by
  rw [bookingOf, activeEntry_eq_some]
  refine exists_congr fun b => and_congr_right fun _ => ?_
  simp only [PeerBucket.active, beq_iff_eq, Prod.mk.injEq]
  exact and_congr_right fun _ => ⟨fun h => ⟨h.1.symm, h.2.symm⟩, fun h => ⟨h.1.symm, h.2.symm⟩⟩

variable {P : Platform}

theorem Bookings.match {s : Chain} (hinj : Injective P.hash) (hs : Bookings P s) :
    BookingsMatch s where
  stake x val hval := ⟨hs.balanced.total x val hval, hs.balanced.self x val hval⟩
  others := hs.others
  names u y hy key b hb hstaked x hx := by
    rw [← bookingOf_eq_some]
    constructor
    · rintro rfl
      have hklv : y = KLVIdentifier := by
        by_contra hne
        exact hx (hs.others u y hne key b hb)
      subst hklv
      exact hs.booked hb hstaked hx
    · -- the booking names a KLV bucket of this user, and only one asset has this key
      intro he
      obtain ⟨b', hb', -, -, heq⟩ := namedEntry_eq_some.1 ((hs.mirrored x u key b.value).1 he)
      obtain ⟨-, hklv⟩ := (hs.keyed u y hy key b hb).unique hinj hy (.inl rfl)
        (hs.keyed u _ (.inl rfl) key b' hb')
      rw [hklv, hb'] at hb
      cases hb
      exact (Prod.ext_iff.1 heq).1.symm

theorem execDelegation_bookings {s s' : Chain} {step : DelegationStep} (hinj : Injective P.hash)
    (hs : Bookings P s) (hstep : step.Admissible P)
    (h : execDelegation P .allActive s step = .ok s') : Bookings P s' := by
  cases step with
  | epochEnd params epoch infos =>
    rw [execDelegation, withCode_eq_ok] at h
    exact epochEnd_bookings hs hstep h
  | call tx =>
    obtain ⟨hlen, hepoch⟩ := hstep
    obtain ⟨ctx, params, sender, call⟩ := tx
    cases call with
    | freeze tc => exact kappFreeze_bookings hs hlen h
    | unfreeze tc => exact kappUnfreeze_bookings hs hepoch h
    | delegate tc => exact kappDelegate_bookings hinj hs hlen hepoch h
    | undelegate bucketID => exact kappUndelegate_bookings hinj hs hepoch h
    | withdraw asset => exact kappWithdraw_bookings hs hepoch h

/-- **Bookings match buckets.**  With an injective hash, in any run of successful staking calls and
epoch ends before the last epoch, the totals of every validator are the sums of its active
bookings, and a staked bucket names a validator exactly if the validator holds an active booking
with its identifier, owner and value. -/
theorem bookings_match_buckets {s s' : Chain} {steps : List DelegationStep}
    (hinj : Injective P.hash) (hs : Bookings P s) (hsteps : ∀ step ∈ steps, step.Admissible P)
    (hrun : runDelegation P .allActive s steps = .ok s') : Bookings P s' ∧ BookingsMatch s' := by
  have hs' : Bookings P s' := by
    refine (foldlM_rule (P := fun rest t => Bookings P t ∧ ∀ step ∈ rest, step.Admissible P) ?_
      steps s s' ⟨hs, hsteps⟩ hrun).1
    intro t step rest t' ⟨ht, hrest⟩ hexec
    exact ⟨execDelegation_bookings hinj ht (hrest step mem_cons_self) hexec,
      fun step' hmem => hrest step' (mem_cons_of_mem _ hmem)⟩
  exact ⟨hs', hs'.match hinj⟩

theorem Bookings.of_unstaked {s : Chain} (hbuckets : ∀ u x, bucketsOf s u x = ∅)
    (hbookings : ∀ x, getValidatorBuckets s.validators x = ∅)
    (hvalidators : ∀ x val, s.validators.validators.lookup x = some val →
      val.ownerAddress = x ∧ val.totalStake = 0 ∧ val.selfStake = 0) : Bookings P s where
  balanced := by
    refine ⟨fun x val hval => (hvalidators x val hval).1, fun x val hval => ?_, fun x val hval => ?_⟩
    · rw [(hvalidators x val hval).2.1, hbookings]
      rfl
    · rw [(hvalidators x val hval).2.2, hbookings]
      rfl
  mirrored x u key w := by
    have hleft : bookingOf s.validators x key = none := by
      rw [bookingOf, hbookings]
      rfl
    have hright : delegationOf s u key = none := by
      rw [delegationOf, hbuckets]
      rfl
    rw [hleft, hright]
    simp
  keyed u x _ key b hb := by
    rw [hbuckets, AList.lookup_empty] at hb
    cases hb
  others u x _ key b hb := by
    rw [hbuckets, AList.lookup_empty] at hb
    cases hb

/-- The sample chain, where the validator has a key. -/
def sampleDelegators : Chain :=
  { sampleStakers with
    validators := { ValidatorStore.empty with
      validators := (∅ : FMap Bytes ValidatorData).insert [9]
        { ownerAddress := [9], canDelegate := true, maxDelegation := 0, selfStake := 0,
          totalStake := 0, blsPubKey := [90] } } }

theorem sampleDelegators_bookings : Bookings samplePlatform sampleDelegators := by
  refine Bookings.of_unstaked (fun u x => ?_) (fun x => rfl) ?_
  · unfold bucketsOf
    have husers : sampleDelegators.users = (∅ : FMap Bytes UserAccount).insert [1] ⟨100, 0, ∅⟩ := rfl
    rw [husers, FMap.lookup_insert_eq]
    split
    · rfl
    · rfl
  · intro x val hval
    simp only [sampleDelegators, FMap.lookup_insert_eq, AList.lookup_empty] at hval
    split at hval
    · rename_i hx
      cases hval
      exact ⟨hx.symm, rfl, rfl⟩
    · cases hval

/-- A delegation of the sample bucket to the sample validator. -/
def sampleDelegation : DelegationStep :=
  .call ⟨⟨12, 1, [8], 0, 0⟩, ∅, [1], .delegate ⟨[9], sampleBucketID⟩⟩

def sampleUndelegation (epoch : UInt32) : DelegationStep :=
  .call ⟨⟨15, epoch, [8], 0, 0⟩, ∅, [1], .undelegate sampleBucketID⟩

def sampleEpochEnd (epoch : UInt32) : DelegationStep :=
  .epochEnd ∅ epoch [⟨[9], [90], .waiting, 0, 0, 0, 0, 0, 0, 0, 0, false⟩]

def sampleDelegationSteps : List DelegationStep :=
  [.call (sampleFreeze 1), sampleDelegation, sampleEpochEnd 2, sampleUndelegation 3,
    sampleEpochEnd 4]

def sampleDelegationEnd : Chain :=
  (runDelegation samplePlatform .allActive sampleDelegators sampleDelegationSteps).toOption.getD
    sampleDelegators

theorem bookings_match_buckets_sample :
    getValidatorBuckets sampleDelegationEnd.validators [9] = ∅ ∧
      BookingsMatch sampleDelegationEnd := by
  have hrun : runDelegation samplePlatform .allActive sampleDelegators sampleDelegationSteps =
      .ok sampleDelegationEnd := eq_ok_getD sampleDelegators (by decide +kernel)
  exact ⟨AList.ext (by decide +kernel), (bookings_match_buckets (fun _ _ h => h)
    sampleDelegators_bookings (by decide) hrun).2⟩

/-- **The last epoch marks a booking as active**, so undelegating in that epoch takes the value out
of the validator's total and leaves it in the sum of the active bookings. -/
theorem undelegate_at_last_epoch :
    Bookings samplePlatform sampleDelegators ∧
    ∃ s, runDelegation samplePlatform .allActive sampleDelegators
      [.call (sampleFreeze 1), sampleDelegation, sampleUndelegation DefaultUnstakedEpoch] = .ok s ∧
      ¬ BookingsMatch s := by
  refine ⟨sampleDelegators_bookings, _, eq_ok_getD sampleDelegators (by decide +kernel), ?_⟩
  intro h
  have hstake := fun val hval => (h.stake [9] val hval).1
  revert hstake
  decide +kernel

end KleverGo.Staking
