import KleverGo.Lib.Mirror
import KleverGo.Validators.EpochEnd

/-!
# Bookings and stake totals of a validator

A validator's totals are kept beside its bookings.  `Balanced` says that they agree: the total
stake is the value of the active bookings, the self stake the part its owner booked.
`bookingOf` is the directory of the active bookings.

* `undelegate_spec`, `delegate_spec`: a call writes one entry of the directory and moves the totals
  with it;
* `processEconomicsEndOfEpoch_bookings`: the end of an epoch deletes inactive bookings only.

All of this fails in the epoch that is also the mark of an active booking.
-/

namespace KleverGo.Validators

open FMap

/-! ## The active bookings -/

variable (pd : FMap Bytes PeerBucket)

/-- The active entry of a table of bookings: who booked, and how much. -/
def activeEntry (key : Bytes) : Option (Bytes × Int64) :=
  (pd.lookup key).bind fun b => if b.active then some (b.address, b.value) else none

/-- The active booking a validator holds under a key. -/
def bookingOf (v : ValidatorStore) (validator key : Bytes) : Option (Bytes × Int64) :=
  activeEntry (getValidatorBuckets v validator) key

/-- The share of a booking in the total stake. -/
def bookedShare (b : PeerBucket) : Int64 := if b.active then b.value else 0

/-- The share of a booking in the stake of `owner`. -/
def ownShare (owner : Bytes) (b : PeerBucket) : Int64 :=
  if b.active ∧ b.address = owner then b.value else 0

def bookedStake : Int64 := pd.sumBy fun _ b => bookedShare b

def ownStake (owner : Bytes) (pd : FMap Bytes PeerBucket) : Int64 :=
  pd.sumBy fun _ b => ownShare owner b

/-- The totals of every validator agree with its bookings, and a validator is stored under the
address of its owner, as `Register` does. -/
structure Balanced (v : ValidatorStore) : Prop where
  owner : ∀ x val, v.validators.lookup x = some val → val.ownerAddress = x
  total : ∀ x val, v.validators.lookup x = some val →
    val.totalStake = bookedStake (getValidatorBuckets v x)
  self : ∀ x val, v.validators.lookup x = some val →
    val.selfStake = ownStake val.ownerAddress (getValidatorBuckets v x)

theorem bookedShare_inactive {b : PeerBucket} (h : b.active = false) : bookedShare b = 0 := by
  simp [bookedShare, h]

theorem ownShare_inactive (owner : Bytes) {b : PeerBucket} (h : b.active = false) :
    ownShare owner b = 0 := by
  simp [ownShare, h]

theorem activeEntry_eq_some {pd : FMap Bytes PeerBucket} {key : Bytes} {e : Bytes × Int64} :
    activeEntry pd key = some e ↔
      ∃ b, pd.lookup key = some b ∧ b.active = true ∧ e = (b.address, b.value) := by
  simp only [activeEntry, Option.bind_eq_some_iff]
  refine exists_congr fun b => and_congr_right fun _ => ?_
  split
  · rename_i h
    simp [h, eq_comm]
  · rename_i h
    simp [h]

theorem activeEntry_insert (key k : Bytes) (b : PeerBucket) :
    activeEntry (pd.insert key b) k =
      if k = key then (if b.active then some (b.address, b.value) else none)
      else activeEntry pd k := by
  unfold activeEntry
  rw [lookup_insert_eq]
  split
  · rfl
  · rfl

theorem activeEntry_erase (key k : Bytes) :
    activeEntry (pd.erase key) k = if k = key then none else activeEntry pd k := by
  unfold activeEntry
  rw [lookup_erase_eq]
  split
  · rfl
  · rfl

/-! ## Writing the tables -/

section
variable {v : ValidatorStore} {x : Bytes} {pd : FMap Bytes PeerBucket} {val : ValidatorData}

theorem getValidatorBuckets_write (v : ValidatorStore) (x y : Bytes) (pd : FMap Bytes PeerBucket)
    (val : ValidatorData) :
    getValidatorBuckets (setValidator (setValidatorBuckets v x pd) x val) y =
      if y = x then pd else getValidatorBuckets v y := by
  simp only [getValidatorBuckets, setValidator, setValidatorBuckets, lookup_insert_eq]
  split
  · rfl
  · rfl

/-- Writing the bookings and the record of one validator writes one entry of the directory, if
only the entry of one key changes. -/
theorem bookingOf_write {key : Bytes} {e : Option (Bytes × Int64)}
    (h : ∀ k, activeEntry pd k = if k = key then e else activeEntry (getValidatorBuckets v x) k) :
    bookingOf (setValidator (setValidatorBuckets v x pd) x val) = write (bookingOf v) x key e := by
  funext y k
  unfold bookingOf write
  rw [getValidatorBuckets_write]
  by_cases hy : y = x
  · subst hy
    simp only [if_true, true_and, h]
  · simp only [hy, if_false, false_and]

/-- Writing bookings with the same active entries keeps the directory. -/
theorem bookingOf_keep (h : activeEntry pd = activeEntry (getValidatorBuckets v x)) :
    bookingOf (setValidator (setValidatorBuckets v x pd) x val) = bookingOf v := by
  funext y k
  unfold bookingOf
  rw [getValidatorBuckets_write]
  split
  · rename_i hy
    rw [h, hy]
  · rfl

theorem Balanced.write (hv : Balanced v) {val' : ValidatorData}
    (hval : v.validators.lookup x = some val) (howner : val'.ownerAddress = val.ownerAddress)
    (htotal : val'.totalStake =
      val.totalStake + (bookedStake pd - bookedStake (getValidatorBuckets v x)))
    (hself : val'.selfStake = val.selfStake +
      (ownStake val.ownerAddress pd - ownStake val.ownerAddress (getValidatorBuckets v x))) :
    Balanced (setValidator (setValidatorBuckets v x pd) x val') := by
  refine ⟨fun y w hw => ?_, fun y w hw => ?_, fun y w hw => ?_⟩ <;>
    simp only [setValidator, setValidatorBuckets, lookup_insert_eq] at hw
  · split at hw
    · rename_i hy
      cases hw
      rw [howner, hy]
      exact hv.owner x val hval
    · exact hv.owner y w hw
  · rw [getValidatorBuckets_write]
    split at hw
    · rename_i hy
      cases hw
      rw [if_pos hy, htotal, hv.total x val hval]
      abel
    · rename_i hy
      rw [if_neg hy]
      exact hv.total y w hw
  · rw [getValidatorBuckets_write]
    split at hw
    · rename_i hy
      cases hw
      rw [if_pos hy, hself, howner, hv.self x val hval]
      abel
    · rename_i hy
      rw [if_neg hy]
      exact hv.self y w hw

end

/-! ## Delegating and undelegating -/

section
variable {v v' : ValidatorStore} {epoch : UInt32} {x sender bucketID key : Bytes}
  {pd : FMap Bytes PeerBucket} {b : PeerBucket}

theorem addStake_self {val : ValidatorData} (h : val.ownerAddress = x) (u : Bytes) (δ : Int64) :
    (addStake val x u δ).selfStake = val.selfStake + if u = val.ownerAddress then δ else 0 := by
  subst h
  simp only [addStake, or_self]
  split
  · rename_i heq
    rw [if_pos heq.symm]
  · rename_i hne
    rw [if_neg fun hc => hne hc.symm, add_zero]

/-- A booking stops counting when it is undelegated before the last epoch, removed or not. -/
theorem undelegatedBuckets_spec (hepoch : epoch ≠ DefaultUndelegatedEpoch)
    (hb : pd.lookup key = some b) :
    (∀ k, activeEntry (undelegatedBuckets .allActive epoch pd key b) k =
      if k = key then none else activeEntry pd k) ∧
    ∀ f : PeerBucket → Int64, (∀ b : PeerBucket, b.active = false → f b = 0) →
      sumBy (fun _ b => f b) (undelegatedBuckets .allActive epoch pd key b) =
        sumBy (fun _ b => f b) pd - f b := by
  have hinactive : ({ b with undelegatedEpoch := epoch } : PeerBucket).active = false := by
    simpa [PeerBucket.active] using hepoch
  unfold undelegatedBuckets
  split
  · refine ⟨activeEntry_erase pd key, fun f _ => ?_⟩
    have hsum := sumBy_erase (fun _ b => f b) pd key
    rw [hb, Option.elim_some] at hsum
    exact eq_sub_of_add_eq hsum
  refine ⟨fun k => ?_, fun f hf => ?_⟩
  · rw [activeEntry_insert, hinactive]
    rfl
  · rw [sumBy_write, hb, Option.elim_some, hf _ hinactive]
    abel

/-- **Undelegating** removes the sender's booking from the directory and from the totals. -/
theorem undelegate_spec (hepoch : epoch ≠ DefaultUndelegatedEpoch)
    (h : undelegate .allActive v epoch x sender bucketID = .ok v') :
    ∃ e, bookingOf v x (hexEncode bucketID) = some e ∧
      bookingOf v' = write (bookingOf v) x (hexEncode bucketID) none ∧
      (Balanced v → e.1 = sender → Balanced v') := by
  simp only [undelegate, getValidator, bind_eq_ok, orError_eq_ok, reject_eq_ok,
    pure_eq_ok, not_not] at h
  obtain ⟨val, hval, b, hb, _, hactive, rfl⟩ := h
  obtain ⟨hentries, hsums⟩ := undelegatedBuckets_spec hepoch hb
  have hactive' : b.active = true := by simp [PeerBucket.active, hactive]
  refine ⟨(b.address, b.value), activeEntry_eq_some.2 ⟨b, hb, hactive', rfl⟩,
    bookingOf_write hentries, fun hv hsender => ?_⟩
  refine hv.write hval rfl ?_ ?_
  · rw [bookedStake, hsums _ fun b => bookedShare_inactive]
    simp only [addStake, bookedShare, hactive', if_true, bookedStake]
    abel
  · rw [addStake_self (hv.owner x val hval), ownStake, hsums _ fun b => ownShare_inactive _]
    simp only [ownShare, hactive', true_and, ownStake, ← hsender]
    split <;> abel

/-- **Delegating** adds a booking where the validator has no active one under the key. -/
theorem delegate_spec (hfree : bookingOf v x key = none) (hactive : b.active = true)
    (h : delegate .allActive v x key b none = .ok v') :
    bookingOf v' = write (bookingOf v) x key (some (b.address, b.value)) ∧
      (Balanced v → Balanced v') := by
  simp only [delegate, getValidator, bind_eq_ok, orError_eq_ok, pure_eq_ok] at h
  obtain ⟨val, hval, _, -, rfl⟩ := h
  refine ⟨bookingOf_write fun k => ?_, fun hv => ?_⟩
  · rw [activeEntry_insert, hactive]
    rfl
  -- an entry that is there is not active, so it counts for nothing
  · have hold : ∀ f : PeerBucket → Int64, (∀ b : PeerBucket, b.active = false → f b = 0) →
        ((getValidatorBuckets v x).lookup key).elim 0 f = 0 := by
      intro f hf
      cases hlookup : (getValidatorBuckets v x).lookup key with
      | none => rfl
      | some old =>
        refine hf old (Bool.eq_false_iff.2 fun hc => ?_)
        rw [bookingOf, activeEntry_eq_some.2 ⟨old, hlookup, hc, rfl⟩] at hfree
        cases hfree
    refine hv.write hval rfl ?_ ?_
    · rw [bookedStake, sumBy_write, hold _ fun b => bookedShare_inactive]
      simp only [addStake, withoutReplaced, Option.elim_none, bookedShare, hactive, if_true,
        bookedStake]
      abel
    · rw [withoutReplaced, Option.elim_none, addStake_self (hv.owner x val hval), ownStake,
        sumBy_write, hold _ fun b => ownShare_inactive _]
      simp only [ownShare, hactive, true_and, ownStake]
      split <;> abel

theorem replacedBooking_none (hfree : bookingOf v x key = none) :
    replacedBooking .allActive v x key = none := by
  simp only [replacedBooking, ForkController.allActive, if_true, Option.filter_eq_none_iff]
  intro b hb hdefault
  have hactive : b.active = true := by simpa [PeerBucket.active] using hdefault
  rw [bookingOf, activeEntry_eq_some.2 ⟨b, hb, hactive, rfl⟩] at hfree
  cases hfree

end

/-! ## The end of an epoch -/

/-- Deleting keys without an active booking changes neither the directory nor the totals. -/
theorem deleteKeys_spec {pd : FMap Bytes PeerBucket} {keys : List Bytes}
    (h : ∀ k ∈ keys, activeEntry pd k = none) :
    activeEntry (deleteKeys pd keys) = activeEntry pd ∧
    ∀ f : PeerBucket → Int64, (∀ b : PeerBucket, b.active = false → f b = 0) →
      sumBy (fun _ b => f b) (deleteKeys pd keys) = sumBy (fun _ b => f b) pd := by
  induction keys generalizing pd with
  | nil => exact ⟨rfl, fun _ _ => rfl⟩
  | cons key rest ih =>
    have hkey : activeEntry pd key = none := h key List.mem_cons_self
    have hentries : activeEntry (pd.erase key) = activeEntry pd := by
      funext k
      rw [activeEntry_erase]
      split
      · rename_i hk
        rw [hk, hkey]
      · rfl
    have hfree : ∀ k ∈ rest, activeEntry (pd.erase key) k = none := fun k hk => by
      rw [hentries]
      exact h k (List.mem_cons_of_mem _ hk)
    obtain ⟨hrest, hsums⟩ := ih hfree
    refine ⟨hrest.trans hentries, fun f hf => (hsums f hf).trans ?_⟩
    have hsum := sumBy_erase (fun _ b => f b) pd key
    rw [← hsum]
    cases hlookup : pd.lookup key with
    | none => simp
    | some b =>
      have hactive : b.active = false := Bool.eq_false_iff.2 fun hc => by
        rw [activeEntry_eq_some.2 ⟨b, hlookup, hc, rfl⟩] at hkey
        cases hkey
      simp [hf b hactive]

/-- The keys to delete are those of bookings that were undelegated by the epoch. -/
theorem mem_keysToDelete {fc : ForkController} {epoch : UInt32} {pd : FMap Bytes PeerBucket}
    {k : Bytes} (hk : k ∈ (processBucketDelegations fc epoch pd).keysToDelete) :
    ∃ b, pd.lookup k = some b ∧ b.undelegatedEpoch ≤ epoch := by
  have hall : ∀ k ∈ (processBucketDelegations fc epoch pd).keysToDelete,
      ∃ b, pd.lookup k = some b ∧ b.undelegatedEpoch ≤ epoch := by
    refine List.foldlRecOn (motive := fun result : BucketProcessingResult =>
      ∀ k ∈ result.keysToDelete, ∃ b, pd.lookup k = some b ∧ b.undelegatedEpoch ≤ epoch)
      pd.entries _ (fun k hk => absurd hk List.not_mem_nil) ?_
    intro result hresult e he k hk
    unfold processBucket at hk
    dsimp only at hk
    split at hk
    · rename_i hdue
      rcases List.mem_append.1 hk with hold | hnew
      · exact hresult k hold
      · rw [List.mem_singleton] at hnew
        exact ⟨e.2, hnew ▸ mem_entries_iff.1 he, hdue.2⟩
    · split at hk <;> split at hk <;> exact hresult k hk
  exact hall k hk

theorem keysToDelete_inactive (fc : ForkController) {epoch : UInt32} (pd : FMap Bytes PeerBucket)
    (hepoch : epoch ≠ DefaultUndelegatedEpoch) :
    ∀ k ∈ (processBucketDelegations fc epoch pd).keysToDelete, activeEntry pd k = none := by
  intro k hk
  obtain ⟨b, hb, hle⟩ := mem_keysToDelete hk
  have hactive : b.active = false := by
    refine Bool.eq_false_iff.2 fun hc => hepoch ?_
    simp only [PeerBucket.active, beq_iff_eq] at hc
    rw [hc, UInt32.le_iff_toNat_le] at hle
    have hmax : DefaultUndelegatedEpoch.toNat = 4294967295 := rfl
    have hlt := epoch.toNat_lt
    exact UInt32.toNat_inj.1 (by omega)
  simp [activeEntry, hb, hactive]

/-- The jail record is apart from the stake, the owner and the key. -/
theorem updateValidatorJailStatus_frame (val : ValidatorData) (p : PeerAccount) (epoch : UInt32) :
    (updateValidatorJailStatus val p epoch).ownerAddress = val.ownerAddress ∧
    (updateValidatorJailStatus val p epoch).totalStake = val.totalStake ∧
    (updateValidatorJailStatus val p epoch).selfStake = val.selfStake ∧
    (updateValidatorJailStatus val p epoch).blsPubKey = val.blsPubKey := by
  unfold updateValidatorJailStatus
  dsimp only
  split <;> split <;> exact ⟨rfl, rfl, rfl, rfl⟩

section
variable {params : Parameters} {epoch : UInt32} {s s' : Chain}

/-- The bookings, the agreement of the totals and the users, as a step of the epoch end keeps
them. -/
structure KeepsBookings (s s' : Chain) : Prop where
  bookings : bookingOf s'.validators = bookingOf s.validators
  balanced : Balanced s.validators → Balanced s'.validators
  users : s'.users = s.users

theorem processValidatorEpoch_bookings {g g' : Staking.Gains} {info : ValidatorInfo}
    (hepoch : epoch ≠ DefaultUndelegatedEpoch)
    (h : processValidatorEpoch .allActive params epoch (s, g) info = .ok (s', g')) :
    KeepsBookings s s' := by
  simp only [processValidatorEpoch, getValidator, bind_eq_ok, orError_eq_ok, pure_eq_ok] at h
  obtain ⟨val, hval, p, -, _, -, heq⟩ := h
  cases heq
  obtain ⟨hentries, hsums⟩ := deleteKeys_spec (keysToDelete_inactive .allActive
    (getValidatorBuckets s.validators info.ownerAddress) hepoch)
  obtain ⟨howner, htotal, hself, -⟩ := updateValidatorJailStatus_frame
    { val with selfStaked := decide (params.getParameterInt .MinSelfDelegatedAmount ≤ val.selfStake) }
    p epoch
  refine ⟨?_, fun hv => ?_, rfl⟩
  · exact bookingOf_keep hentries
  · refine hv.write hval howner (htotal.trans ?_) (hself.trans ?_)
    · rw [bookedStake, bookedStake, hsums _ fun b => bookedShare_inactive, sub_self, add_zero]
    · rw [ownStake, ownStake, hsums _ fun b => ownShare_inactive _, sub_self, add_zero]

theorem addToPendingRewards_frame {v v' : ValidatorStore} {address : Bytes} {amount : Int64}
    (h : addToPendingRewards v address amount = .ok v') :
    ∃ m, v' = { v with pendingRewards := m } := by
  unfold addToPendingRewards at h
  split at h
  · cases h
    exact ⟨v.pendingRewards, rfl⟩
  · simp only [setPendingRewards, bind_eq_ok] at h
    obtain ⟨_, -, h⟩ := h
    split at h <;> cases h <;> exact ⟨_, rfl⟩

theorem savePendingRewards_frame {v v' : ValidatorStore} {g : Staking.Gains}
    (h : savePendingRewards v g = .ok v') : ∃ m, v' = { v with pendingRewards := m } := by
  refine foldlM_invariant (P := fun w : ValidatorStore => ∃ m, w = { v with pendingRewards := m }) ?_
    ⟨v.pendingRewards, rfl⟩ h
  rintro w e w' ⟨m, rfl⟩ hw
  obtain ⟨m', rfl⟩ := addToPendingRewards_frame hw
  exact ⟨m', rfl⟩

/-- **The end of an epoch** before the last one keeps the active bookings and the agreement of the
totals. -/
theorem processEconomicsEndOfEpoch_bookings {infos : List ValidatorInfo}
    (hepoch : epoch ≠ DefaultUndelegatedEpoch)
    (h : processEconomicsEndOfEpoch .allActive params epoch infos s = .ok s') :
    KeepsBookings s s' := by
  simp only [processEconomicsEndOfEpoch, bind_eq_ok, pure_eq_ok] at h
  obtain ⟨⟨s1, g⟩, hloop, v, hsave, rfl⟩ := h
  have hstep : KeepsBookings s s1 :=
    foldlM_invariant (P := fun acc : Chain × Staking.Gains => KeepsBookings s acc.1)
      (fun acc info acc' hacc hinfo => by
        have hnext := processValidatorEpoch_bookings hepoch hinfo
        exact ⟨hnext.bookings.trans hacc.bookings, fun hv => hnext.balanced (hacc.balanced hv),
          hnext.users.trans hacc.users⟩)
      ⟨rfl, id, rfl⟩ hloop
  obtain ⟨m, rfl⟩ := savePendingRewards_frame hsave
  exact ⟨hstep.bookings, fun hv => ⟨(hstep.balanced hv).owner, (hstep.balanced hv).total,
    (hstep.balanced hv).self⟩, hstep.users⟩

end

end KleverGo.Validators
