import KleverGo.Staking.Account

/-!
# Updates of account permissions

`UpdatePermission` of `core/kapp/accounts/accounts.go` replaces the permissions of an account.

* `kappUpdatePermission_spec`: a successful call stores the permissions it built and writes nothing
  else.
* `withOwnerPermission_wellFormed`: what it builds is well formed.
* `permissions_well_formed`: **after any sequence of successful calls the permissions of an account
  they reached are well formed, and one of them controls the account.**
-/

namespace KleverGo.Transactions

open List

structure AccKey where
  address : Bytes
  weight : Int64
  deriving DecidableEq, Repr

/-- `transaction.AccPermission`; the type is the number of the message. -/
structure AccPermission where
  type : Int32
  permissionName : Bytes
  threshold : Int64
  operations : Bytes
  signers : List AccKey
  deriving DecidableEq, Repr

def MaxAccountPermission : Nat := 20

def MaxPermissionSigners : Nat := 10

/-- `state.Permission_PermissionType_name`, as the type of that number. -/
def permissionTypeOf (type : Int32) : Option PermissionType :=
  if type = 0 then some .Owner else if type = 1 then some .User else none

section
variable (P : Platform) (fc : ForkController)

def accumulateSignerWeight (weightSum weight : Int64) : Except Err Int64 :=
  if fc.fixAuditChangesV3 then Staking.safeAddI64 weightSum weight else .ok (weightSum + weight)

/-- The loop of `validateSigners`; `seen` is `dupCheck`. -/
def validateSignersLoop : List Bytes → Int64 → List AccKey → Except Err (Int64 × List Key)
  | _, weightSum, [] => .ok (weightSum, [])
  | seen, weightSum, signer :: rest => do
    reject (signer.address.length ≠ P.addressLen) .ErrInvalidParameter
    reject (fc.fixAuditChangesV3 ∧ signer.weight ≤ 0) .ErrInvalidSignerWeight
    reject (signer.address ∈ seen) .ErrInvalidParameter
    let weightSum ← accumulateSignerWeight fc weightSum signer.weight
    let (weightSum, stateSigners) ← validateSignersLoop (signer.address :: seen) weightSum rest
    pure (weightSum, ⟨signer.address, signer.weight⟩ :: stateSigners)

def validateSigners (pType : Int32) (signers : List AccKey) : Except Err (Int64 × List Key) := do
  reject (signers = [] ∨ MaxPermissionSigners < signers.length) .ErrInvalidParameter
  reject ((permissionTypeOf pType).isNone) .ErrInvalidParameter
  validateSignersLoop P fc [] 0 signers

def validatePermissionName (name : Bytes) : Except Err Bytes := do
  if !fc.kdaFpr then pure []
  else
    reject (!P.utf8Valid name ∨ MaxNameSize < name.length) .ErrInvalidParameter
    pure name

def buildPermission (p : AccPermission) (permissionIndex : Nat) (weightSum : Int64)
    (stateSigners : List Key) : Except Err Permission := do
  reject (weightSum < p.threshold) .ErrInvalidParameter
  reject (fc.fixAuditChangesV3 ∧ p.threshold ≤ 0) .ErrInvalidPermissionThreshold
  let permName ← validatePermissionName P fc p.permissionName
  pure ⟨Int32.ofNat permissionIndex, (permissionTypeOf p.type).getD .Owner, permName, p.threshold,
    p.operations, stateSigners⟩

/-- One permission of the loop of `UpdatePermission`. -/
def readPermission (p : AccPermission) (permissionIndex : Nat) : Except TxError Permission := do
  let (weightSum, stateSigners) ← withReceipt .ParameterInvalid .InvalidPermissionSigs
    (validateSigners P fc p.type p.signers)
  withReceipt .ParameterInvalid .InvalidPermission
    (buildPermission P fc p permissionIndex weightSum stateSigners)

/-- The loop of `UpdatePermission`, from the given index. -/
def readPermissions : Nat → List AccPermission → Except TxError (List Permission)
  | _, [] => .ok []
  | index, p :: rest => do
    let permission ← readPermission P fc p index
    let permissions ← readPermissions (index + 1) rest
    pure (permission :: permissions)

/-- The permissions with `createDefaultOwnerPermission` at the end if none is the owner's. -/
def withOwnerPermission (target : Bytes) (given : List AccPermission)
    (permissions : List Permission) : List Permission :=
  if given.any fun p => p.type = 0 then permissions
  else permissions ++ [ownerPermission target (Int32.ofNat permissions.length)]

/-- `TXContract_UpdateAccountPermissionContractType` -/
def UpdateAccountPermissionContractType : UInt32 := 22

def authorizerCanUpdatePermission (permissions : List Permission) (authorizer : Bytes) : Bool :=
  permissions.any fun permission => permission.signers.any fun signer =>
    signer.address = authorizer && permission.threshold ≤ signer.weight &&
      permission.checkPermissionGrantedForContracts UpdateAccountPermissionContractType

def permissionsOf (s : Chain) (address : Bytes) : List Permission :=
  (s.permissions.lookup address).getD []

/-- `accountsKapp.UpdatePermission`; the contract is its list of permissions. -/
def kappUpdatePermission (s : Chain) (authorizer target : Bytes)
    (tcPermissions : List AccPermission) : Except TxError Chain := do
  reject (MaxAccountPermission < tcPermissions.length)
    (failAt .ParameterInvalid .InvalidPermission .ErrInvalidParameter)
  let _ ← withReceipt .LoadAccountError .LoadSenderAccount (s.getExistingUser target)
  reject (authorizer ≠ target ∧
      !authorizerCanUpdatePermission (permissionsOf s target) authorizer)
    (failAt .ParameterInvalid .InvalidPermission .ErrNoPermission)
  let permissions ← readPermissions P fc 0 tcPermissions
  pure { s with permissions :=
    s.permissions.insert target (withOwnerPermission target tcPermissions permissions) }

end

/-! ## Well-formed permissions -/

/-- The weights of signers, added as integers. -/
def weightOf (signers : List Key) : Int := (signers.map fun k => k.weight.toInt).sum

/-- A permission whose signers can reach its threshold, at its place in the list. -/
structure WellFormedAt (index : Nat) (p : Permission) : Prop where
  nonempty : p.signers ≠ []
  distinct : (p.signers.map Key.address).Nodup
  positive : ∀ k ∈ p.signers, 0 < k.weight.toInt
  fits : weightOf p.signers < 2 ^ 63
  threshold : 1 ≤ p.threshold.toInt ∧ p.threshold.toInt ≤ weightOf p.signers
  id : p.id.toInt = index

/-- Every permission is well formed at its index, and one of them is the owner's. -/
structure WellFormed (permissions : List Permission) : Prop where
  each : ∀ i p, permissions[i]? = some p → WellFormedAt i p
  owner : ∃ p ∈ permissions, p.type = .Owner

/-- Some owner permission can be named by a transaction, and its signers reach its threshold. -/
def Controlled (address : Bytes) (permissions : List Permission) : Prop :=
  ∃ id p, getPermission address permissions id = .ok p ∧ p.type = .Owner ∧
    p.threshold.toInt ≤ weightOf p.signers

theorem WellFormed.controlled {permissions : List Permission} (h : WellFormed permissions)
    (address : Bytes) : Controlled address permissions := by
  obtain ⟨p, hp, howner⟩ := h.owner
  obtain ⟨i, hi⟩ := mem_iff_getElem?.1 hp
  refine ⟨p.id, p, ?_, howner, (h.each i p hi).threshold.2⟩
  have hne : permissions.isEmpty = false := isEmpty_eq_false_iff.2 (ne_nil_of_mem hp)
  rw [getPermission, hne, if_neg Bool.false_ne_true, orError_eq_ok]
  -- identifiers are indices, so no other permission has this one
  obtain ⟨q, hq⟩ : ∃ q, permissions.find? (fun q => q.id = p.id) = some q :=
    Option.isSome_iff_exists.1 (find?_isSome.2 ⟨p, hp, by simp⟩)
  obtain ⟨j, hj⟩ := mem_iff_getElem?.1 (mem_of_find?_eq_some hq)
  have hid : q.id = p.id := by simpa using find?_some hq
  have hij : (j : Int) = i := by rw [← (h.each j q hj).id, ← (h.each i p hi).id, hid]
  rw [Int.ofNat_inj.1 hij, hi] at hj
  rw [hq, ← hj]

/-! ## What an update builds -/

section
variable {P : Platform} {fc : ForkController}

theorem safeAddI64_spec {a b c : Int64} (hb : 0 ≤ b.toInt) (h : Staking.safeAddI64 a b = .ok c) :
    c.toInt = a.toInt + b.toInt := by
  simp only [Staking.safeAddI64, bind_eq_ok, reject_eq_ok, pure_eq_ok] at h
  obtain ⟨_, hrange, rfl⟩ := h
  have ha := a.le_toInt
  have ha' := a.toInt_lt
  have hb' := b.toInt_lt
  have hmax : ((9223372036854775807 : Int64) - b).toInt = 9223372036854775807 - b.toInt :=
    Amount.toInt_sub (by decide) hb
  rw [not_or, Int64.lt_iff_toInt_lt, Int64.lt_iff_toInt_lt, hmax, Int64.toInt_zero] at hrange
  rw [Int64.toInt_add, Int.bmod]
  omega

/-- The signers an update accepts: new, distinct, of positive weight, and their weights are added
exactly. -/
theorem validateSignersLoop_spec (hV3 : fc.fixAuditChangesV3 = true) {signers : List AccKey}
    {seen : List Bytes} {w sum : Int64} {keys : List Key}
    (h : validateSignersLoop P fc seen w signers = .ok (sum, keys)) :
    keys.length = signers.length ∧ (keys.map Key.address).Nodup ∧
    (∀ k ∈ keys, k.address ∉ seen ∧ 0 < k.weight.toInt) ∧
    sum.toInt = w.toInt + weightOf keys := by
  induction signers generalizing seen w sum keys with
  | nil =>
    cases h
    simp [weightOf]
  | cons signer rest ih =>
    simp only [validateSignersLoop, accumulateSignerWeight, hV3, if_true, true_and,
      bind_eq_ok, reject_eq_ok, pure_eq_ok, Prod.mk.injEq] at h
    obtain ⟨_, -, _, hweight, _, hnew, w1, hsum, ⟨_, keys1⟩, hrest, rfl, rfl⟩ := h
    rw [Amount.not_pos_iff, Int.not_le] at hweight
    obtain ⟨hlength, hnodup, hkeys, htotal⟩ := ih hrest
    refine ⟨by simp [hlength], ?_, ?_, ?_⟩
    · rw [map_cons, nodup_cons]
      refine ⟨fun hmem => ?_, hnodup⟩
      obtain ⟨k, hk, heq⟩ := mem_map.1 hmem
      exact (hkeys k hk).1 (heq ▸ mem_cons_self)
    · intro k hk
      rcases mem_cons.1 hk with rfl | hk
      · exact ⟨hnew, hweight⟩
      · exact ⟨fun hseen => (hkeys k hk).1 (mem_cons_of_mem _ hseen), (hkeys k hk).2⟩
    · rw [htotal, safeAddI64_spec (by omega) hsum, Int.add_assoc]
      rfl

theorem toInt_ofNat32 {n : Nat} (h : n ≤ 20) : (Int32.ofNat n).toInt = n :=
  Int32.toInt_ofNat_of_lt (by omega)

variable {index : Nat}

/-- A permission that is accepted is well formed at the index it is given. -/
theorem readPermission_wellFormed (hV3 : fc.fixAuditChangesV3 = true) {p : AccPermission}
    (hindex : index ≤ 20) {permission : Permission}
    (h : readPermission P fc p index = .ok permission) :
    WellFormedAt index permission ∧ (p.type = 0 → permission.type = .Owner) := by
  simp only [readPermission, bind_eq_ok, withReceipt_eq_ok, validateSigners, buildPermission,
    reject_eq_ok, pure_eq_ok, hV3, true_and] at h
  obtain ⟨⟨sum, keys⟩, ⟨_, hsome, _, -, hloop⟩, _, hreach, _, hpositive, _, -, rfl⟩ := h
  obtain ⟨hlength, hnodup, hkeys, htotal⟩ := validateSignersLoop_spec hV3 hloop
  rw [Int64.toInt_zero, Int.zero_add] at htotal
  rw [Int64.lt_iff_toInt_lt] at hreach
  rw [Amount.not_pos_iff] at hpositive
  dsimp only at hreach
  have hlt := sum.toInt_lt
  refine ⟨⟨?_, hnodup, fun k hk => (hkeys k hk).2, by dsimp only; omega, ?_, toInt_ofNat32 hindex⟩, ?_⟩
  · intro hnil
    have hzero : keys = [] := hnil
    rw [hzero, length_nil] at hlength
    exact hsome (.inl (length_eq_zero_iff.1 hlength.symm))
  · dsimp only
    omega
  · intro htype
    simp [permissionTypeOf, htype]

variable {given : List AccPermission} {permissions : List Permission}

theorem readPermissions_wellFormed (hV3 : fc.fixAuditChangesV3 = true)
    (hindex : index + given.length ≤ 20) (h : readPermissions P fc index given = .ok permissions) :
    permissions.length = given.length ∧
    (∀ i p, permissions[i]? = some p → WellFormedAt (index + i) p) ∧
    ((given.any fun p => p.type = 0) = true → ∃ p ∈ permissions, p.type = .Owner) := by
  induction given generalizing index permissions with
  | nil =>
    cases h
    simp
  | cons g rest ih =>
    simp only [readPermissions, bind_eq_ok, pure_eq_ok] at h
    obtain ⟨permission, hread, permissions1, hrest, rfl⟩ := h
    rw [length_cons] at hindex
    obtain ⟨hhead, howner⟩ := readPermission_wellFormed hV3 (by omega) hread
    obtain ⟨hlength, htail, hany⟩ := ih (by omega) hrest
    refine ⟨by simp [hlength], fun i p hi => ?_, fun hsome => ?_⟩
    · cases i with
      | zero =>
        cases hi
        exact hhead
      | succ i =>
        rw [← Nat.add_assoc, Nat.add_right_comm]
        exact htail i p hi
    · rw [any_cons, Bool.or_eq_true] at hsome
      rcases hsome with htype | hsome
      · exact ⟨permission, mem_cons_self, howner (by simpa using htype)⟩
      · obtain ⟨p, hp, hp'⟩ := hany hsome
        exact ⟨p, mem_cons_of_mem _ hp, hp'⟩

theorem ownerPermission_wellFormed (address : Bytes) (hindex : index ≤ 20) :
    WellFormedAt index (ownerPermission address (Int32.ofNat index)) where
  nonempty := cons_ne_nil _ _
  distinct := nodup_singleton _
  positive := by simp [ownerPermission]
  fits := by simp [ownerPermission, weightOf]
  threshold := by simp [ownerPermission, weightOf]
  id := toInt_ofNat32 hindex

/-- **What an update stores is well formed.** -/
theorem withOwnerPermission_wellFormed (hV3 : fc.fixAuditChangesV3 = true)
    (hsize : given.length ≤ 20) (h : readPermissions P fc 0 given = .ok permissions)
    (target : Bytes) :
    WellFormed (withOwnerPermission target given permissions) := by
  obtain ⟨hlength, heach, howner⟩ := readPermissions_wellFormed hV3 (by omega) h
  simp only [Nat.zero_add] at heach
  unfold withOwnerPermission
  split
  · rename_i hany
    exact ⟨heach, howner hany⟩
  refine ⟨fun i p hi => ?_, _, mem_append_right _ mem_cons_self, rfl⟩
  rcases Nat.lt_or_ge i permissions.length with hlt | hge
  · rw [getElem?_append_left hlt] at hi
    exact heach i p hi
  rw [getElem?_append_right hge] at hi
  obtain ⟨hi0, rfl⟩ : i - permissions.length = 0 ∧ ownerPermission target _ = p := by
    rwa [getElem?_singleton, Option.ite_none_right_eq_some, Option.some_inj] at hi
  have hi' : i = permissions.length := by omega
  rw [hi']
  exact ownerPermission_wellFormed target (by omega)

/-- A successful update writes the permissions of its target and nothing else. -/
theorem kappUpdatePermission_spec (hV3 : fc.fixAuditChangesV3 = true) {s s' : Chain}
    {authorizer target : Bytes} (h : kappUpdatePermission P fc s authorizer target given = .ok s') :
    ∃ permissions, WellFormed permissions ∧
      s' = { s with permissions := s.permissions.insert target permissions } := by
  simp only [kappUpdatePermission, bind_eq_ok, reject_eq_ok, pure_eq_ok] at h
  obtain ⟨_, hsize, _, -, _, -, permissions, hread, rfl⟩ := h
  exact ⟨_, withOwnerPermission_wellFormed hV3 (Nat.le_of_not_lt hsize) hread target, rfl⟩

end

/-! ## Sequences of updates -/

structure UpdateCall where
  authorizer : Bytes
  target : Bytes
  permissions : List AccPermission

/-- A sequence of calls, all of which succeed. -/
def runUpdates (P : Platform) (fc : ForkController) (s : Chain) (calls : List UpdateCall) :
    Except TxError Chain :=
  calls.foldlM (fun s c => kappUpdatePermission P fc s c.authorizer c.target c.permissions) s

section
variable {P : Platform} {fc : ForkController} {s s' : Chain}

/-- A sequence of updates leaves the permissions of an account alone, or well formed if a call
reached it. -/
theorem runUpdates_spec (hV3 : fc.fixAuditChangesV3 = true) {calls : List UpdateCall}
    (h : runUpdates P fc s calls = .ok s') (address : Bytes) :
    if ∃ c ∈ calls, c.target = address then WellFormed (permissionsOf s' address)
    else permissionsOf s' address = permissionsOf s address := by
  induction calls generalizing s with
  | nil =>
    cases h
    simp
  | cons c rest ih =>
    simp only [runUpdates, foldlM_cons, bind_eq_ok] at h
    obtain ⟨s1, hcall, hrest⟩ := h
    obtain ⟨permissions, hwell, rfl⟩ := kappUpdatePermission_spec hV3 hcall
    have hlater := ih hrest
    by_cases hreached : ∃ c ∈ rest, c.target = address
    · rw [if_pos hreached] at hlater
      obtain ⟨c', hc', htarget⟩ := hreached
      rw [if_pos ⟨c', mem_cons_of_mem _ hc', htarget⟩]
      exact hlater
    rw [if_neg hreached] at hlater
    rw [hlater, permissionsOf, FMap.lookup_insert_eq, apply_ite (Option.getD · [])]
    -- no later call reaches the account, so this one decides
    by_cases hc : address = c.target
    · rw [if_pos ⟨c, mem_cons_self, hc.symm⟩, if_pos hc]
      exact hwell
    rw [if_neg hc, if_neg]
    · rfl
    rintro ⟨c', hc', htarget⟩
    rcases mem_cons.1 hc' with rfl | hc'
    · exact hc htarget.symm
    · exact hreached ⟨c', hc', htarget⟩

/-- **Permissions stay well formed**: after any sequence of successful updates, the permissions of
every account that one of them reached are well formed, and an owner permission whose signers reach
its threshold can be named by a transaction. -/
theorem permissions_well_formed (hV3 : fc.fixAuditChangesV3 = true) {calls : List UpdateCall}
    (h : runUpdates P fc s calls = .ok s') {address : Bytes}
    (hreached : ∃ c ∈ calls, c.target = address) :
    WellFormed (permissionsOf s' address) ∧ Controlled address (permissionsOf s' address) := by
  have hspec := runUpdates_spec hV3 h address
  rw [if_pos hreached] at hspec
  exact ⟨hspec, hspec.controlled address⟩

end

/-- An account that gives a second key the right to transfer, together with its own. -/
def sampleUpdate : UpdateCall :=
  ⟨[1], [1], [⟨1, [], 2, [1], [⟨[1], 1⟩, ⟨[2], 1⟩]⟩]⟩

def sampleSigners : Chain where
  users := (∅ : FMap Bytes UserAccount).insert [1] UserAccount.empty
  kdas := ∅
  market := ⟨∅, ∅, ∅⟩

theorem permissions_well_formed_sample :
    ∃ s', runUpdates samplePlatform .allActive sampleSigners [sampleUpdate] = .ok s' ∧
      WellFormed (permissionsOf s' [1]) ∧ Controlled [1] (permissionsOf s' [1]) := by
  have hrun : runUpdates samplePlatform .allActive sampleSigners [sampleUpdate] = .ok _ := rfl
  exact ⟨_, hrun, permissions_well_formed rfl hrun ⟨sampleUpdate, mem_cons_self, rfl⟩⟩

end KleverGo.Transactions
