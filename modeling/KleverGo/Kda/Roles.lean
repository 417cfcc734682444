import KleverGo.State.Assets

/-!
# The roles of an asset

The list of roles is written by `Create` (`parseRoles`), by the triggers `AddRole` and `RemoveRole`
and by the ITO, which grants its own KApp the right to mint.  Only `AddRole` looks at the number of
roles, and it lets a list of `MaxAssetRoles` grow by one more.

* `roles_kept_iff` — **the list stays without duplicates, within the limit and as granted exactly if
  no call adds an address to a full list**, and the roles of `Create` are few enough and do not
  repeat an address with other permissions;
* `twenty_first_role` — the limit is exceeded.
-/

namespace KleverGo.Kda

open List Function

def MaxAssetRoles : Nat := 20

def ITOKAppAddress : Bytes :=
  [0, 0, 0, 0, 0, 0, 0, 0, 0, 1, 0, 0, 0, 0, 0, 0, 0, 0, 0, 0, 0, 0, 0, 0, 0, 0, 0, 0, 0, 3, 255, 255]

section
variable (P : Platform) (fc : ForkController)

/-- One turn of the loop of `parseRoles`. -/
def parseRole (roles : List RolesData) (newRole : RolesData) : Except TxError (List RolesData) := do
  reject (newRole.address.length ≠ P.addressLen) (fail .AccountError .ErrInvalidRoleAddr)
  pure (if roles.any (·.address == newRole.address) then roles else roles ++ [newRole])

def parseRoles (tcRoles : List RolesData) : Except TxError (List RolesData) :=
  tcRoles.foldlM (parseRole P) []

/-- `checkCanAddRoles`, with `Properties.CanAddRoles` -/
def checkCanAddRoles (canAddRoles : Bool) : Except TxError Unit :=
  reject (¬ canAddRoles) (failAt (if fc.enableSmartContracts then .AssetCantAddRoles
    else .AssetCantBeBurned) .AssetCantAddRoles .ErrAssetTriggerInvalid)

/-- The loop of `handleAddRole` replaces every entry of the address. -/
def setRole (role : RolesData) (roles : List RolesData) : List RolesData :=
  if roles.any (·.address == role.address) then
    roles.map fun r => if r.address == role.address then role else r
  else roles ++ [role]

def handleAddRole (sender : Bytes) (canAddRoles : Bool) (role : RolesData) (asset : KDAData) :
    Except TxError KDAData := do
  reject (¬ asset.isOwnerOrAdmin sender) (failAt .AccountNotOwner .InvalidPermission .ErrAccNotOwner)
  checkCanAddRoles fc canAddRoles
  reject (role.address.length ≠ P.addressLen)
    (failAt .AccountError .InvalidRoleAddress .ErrInvalidRcvAddr)
  reject (fc.enableSmartContracts ∧ MaxAssetRoles < asset.roles.length)
    (failAt .IteratorLimitReached .RoleLimitReached .ErrRoleLimitReached)
  pure { asset with roles := setRole role asset.roles }

def removeRole (address : Bytes) (asset : KDAData) : KDAData :=
  { asset with roles := asset.roles.filter (·.address != address) }

def handleRemoveRole (sender toAddress : Bytes) (asset : KDAData) : Except TxError KDAData := do
  reject (¬ asset.isOwnerOrAdmin sender) (failAt .AccountNotOwner .InvalidPermission .ErrAccNotOwner)
  pure (removeRole toAddress asset)

/-- `ITOTriggerContract_EnumITOStatus`; `other` is a number without a name. -/
inductive ITOStatus where
  | DefaultITO | ActiveITO | PausedITO | other

def itoRole : RolesData := ⟨ITOKAppAddress, true, true, false, false⟩

/-- The loop of the ITO replaces the first entry of the address, and breaks. -/
def setFirstRole (role : RolesData) : List RolesData → List RolesData
  | [] => [role]
  | r :: rest => if r.address = role.address then role :: rest else r :: setFirstRole role rest

/-- The switch on the status in `UpdateStatus` and in `Config`. -/
def setITOStatus (onDefault : Except TxError KDAData) (unknown : Err) (asset : KDAData) :
    ITOStatus → Except TxError KDAData
  | .DefaultITO => onDefault
  | .ActiveITO => pure { asset with roles := setFirstRole itoRole asset.roles }
  | .PausedITO => pure (removeRole ITOKAppAddress asset)
  | .other => .error (fail .ParameterInvalid unknown)

def updateStatus (sender : Bytes) (status : ITOStatus) (asset : KDAData) :
    Except TxError KDAData := do
  reject (¬ asset.isOwnerOrAdmin sender) (failAt .AccountNotOwner .InvalidPermission .ErrAccNotOwner)
  setITOStatus (.error (failAt .ParameterInvalid .ITOConfigError .ErrInvalidValue))
    .ErrITOStatusInvalid asset status

/-- `Config` of the ITO, what it does to the asset; `otherChecks` are those of the ITO's own data. -/
def config (sender : Bytes) (status : ITOStatus) (otherChecks : Except TxError Unit)
    (asset : KDAData) : Except TxError KDAData := do
  reject (¬ asset.isOwnerOrAdmin sender) (failAt .AccountNotOwner .InvalidPermission .ErrAccNotOwner)
  otherChecks
  setITOStatus (if fc.kdaFpr then .error (fail .ParameterInvalid .ErrInvalidValue) else pure asset)
    .ErrITOTypeInvalid asset status

inductive RoleStep where
  | addRole (sender : Bytes) (canAddRoles : Bool) (role : RolesData)
  | removeRole (sender toAddress : Bytes)
  | updateStatus (sender : Bytes) (status : ITOStatus)
  | config (sender : Bytes) (status : ITOStatus) (otherChecks : Except TxError Unit)

def RoleStep.call (asset : KDAData) : RoleStep → Except TxError KDAData
  | .addRole sender canAddRoles role => handleAddRole P fc sender canAddRoles role asset
  | .removeRole sender toAddress => handleRemoveRole sender toAddress asset
  | .updateStatus sender status => Kda.updateStatus sender status asset
  | .config sender status otherChecks => Kda.config fc sender status otherChecks asset

/-! ## What was granted -/

/-- The permissions each address was granted last. -/
abbrev Grants := Bytes → Option RolesData

def grantAll (tcRoles : List RolesData) : Grants :=
  tcRoles.foldl (fun grants role => update grants role.address (some role)) fun _ => none

/-- What an accepted call grants (`some role`) or removes (`none`), and of which address. -/
def RoleStep.grant : RoleStep → Option (Bytes × Option RolesData)
  | .addRole _ _ role => some (role.address, some role)
  | .removeRole _ toAddress => some (toAddress, none)
  | .updateStatus _ .ActiveITO | .config _ .ActiveITO _ => some (ITOKAppAddress, some itoRole)
  | .updateStatus _ .PausedITO | .config _ .PausedITO _ => some (ITOKAppAddress, none)
  | _ => none

/-- A call that is refused changes nothing. -/
def perform (s : KDAData × Grants) (step : RoleStep) : KDAData × Grants :=
  match step.call P fc s.1 with
  | .ok asset => (asset, step.grant.elim s.2 fun g => update s.2 g.1 g.2)
  | .error _ => s

end

def addresses (roles : List RolesData) : List Bytes := roles.map (·.address)

structure RolesKept (asset : KDAData) (grants : Grants) : Prop where
  nodup : (addresses asset.roles).Nodup
  bounded : asset.roles.length ≤ MaxAssetRoles
  granted : ∀ address, asset.isOwnerOrAdmin address = false →
    asset.getRoleByAddress address = grants address

/-- The call does not add an address to a full list. -/
def RoleStep.Fits (P : Platform) (fc : ForkController) (asset : KDAData) (step : RoleStep) : Prop :=
  (step.call P fc asset).isOk → ∀ address role, step.grant = some (address, some role) →
    address ∈ addresses asset.roles ∨ asset.roles.length < MaxAssetRoles

/-- The roles of `Create` are few enough, and the first entry of an address, which counts, is the
one it was granted last. -/
structure CreateFits (asset : KDAData) (tcRoles : List RolesData) : Prop where
  bounded : (addresses tcRoles).toFinset.card ≤ MaxAssetRoles
  granted : ∀ address, asset.isOwnerOrAdmin address = false →
    tcRoles.find? (·.address == address) = grantAll tcRoles address

/-- Every call fits the list that it finds. -/
def AllFit (P : Platform) (fc : ForkController) : KDAData × Grants → List RoleStep → Prop
  | _, [] => True
  | s, step :: rest => step.Fits P fc s.1 ∧ AllFit P fc (perform P fc s step) rest

/-! ## One call -/

section
variable {P : Platform} {fc : ForkController} {asset asset' : KDAData} {grants : Grants}
  {role : RolesData} {roles roles' : List RolesData} {s : KDAData × Grants}

theorem getRole_of_not_owner (asset : KDAData) {address : Bytes}
    (howner : asset.isOwnerOrAdmin address = false) :
    asset.getRoleByAddress address = asset.roles.find? (·.address == address) :=
  if_neg fun h => absurd (howner.symm.trans h) Bool.false_ne_true

theorem mem_addresses {address : Bytes} :
    address ∈ addresses roles ↔ (roles.find? (·.address == address)).isSome := by
  simp [addresses]

/-- The list with the role of one address set. -/
structure SetsRole (role : RolesData) (roles roles' : List RolesData) : Prop where
  addresses : addresses roles' = if role.address ∈ addresses roles then addresses roles
    else addresses roles ++ [role.address]
  find : ∀ address, roles'.find? (·.address == address) =
    if address = role.address then some role else roles.find? (·.address == address)

theorem setsRole_setRole : SetsRole role roles (setRole role roles) := by
  have hany : roles.any (·.address == role.address) ↔ role.address ∈ addresses roles := by
    simp [addresses]
  unfold setRole
  by_cases hmem : role.address ∈ addresses roles
  · let put (r : RolesData) : RolesData := if r.address == role.address then role else r
    have hput : ∀ r, (put r).address = r.address := fun r => by grind
    rw [if_pos (hany.2 hmem)]
    refine ⟨?_, fun address => ?_⟩
    · rw [if_pos hmem]
      exact map_map.trans (map_congr_left fun r _ => hput r)
    have hfind : (roles.map put).find? (·.address == address) =
        (roles.find? (·.address == address)).map put := by
      simp only [find?_map, comp_def, hput]
    refine hfind.trans ?_
    rw [mem_addresses] at hmem
    cases hold : roles.find? (·.address == address) with
    | none => grind
    | some r =>
      have := find?_some hold
      grind
  · rw [if_neg fun h => hmem (hany.1 h)]
    refine ⟨by rw [if_neg hmem]; exact map_append, fun address => ?_⟩
    rw [mem_addresses] at hmem
    grind

theorem setsRole_setFirstRole : SetsRole role roles (setFirstRole role roles) := by
  induction roles with
  | nil => exact ⟨by simp [setFirstRole, addresses], fun address => by grind [setFirstRole]⟩
  | cons r rest ih =>
    obtain ⟨haddresses, hfind⟩ := ih
    rw [setFirstRole]
    split
    · exact ⟨by grind [addresses], by grind⟩
    · refine ⟨by grind [addresses], fun address => ?_⟩
      have := hfind address
      grind

namespace RolesKept

theorem set_iff (h : RolesKept asset grants) (hset : SetsRole role asset.roles roles') :
    RolesKept { asset with roles := roles' } (update grants role.address (some role)) ↔
      role.address ∈ addresses asset.roles ∨ asset.roles.length < MaxAssetRoles := by
  obtain ⟨hnodup, hbounded, hgranted⟩ := h
  have haddresses := hset.addresses
  have hlength := congrArg length haddresses
  simp only [addresses, length_map] at hlength
  constructor
  · intro hkept
    have := hkept.bounded
    grind [addresses]
  intro hroom
  refine ⟨?_, by grind [addresses], fun address howner => ?_⟩
  · dsimp only
    rw [haddresses]
    split
    · exact hnodup
    · next hnew => exact nodup_append.2 ⟨hnodup, nodup_singleton _, by grind⟩
  · rw [getRole_of_not_owner _ howner, hset.find, update_apply,
      ← hgranted address howner, getRole_of_not_owner asset howner]

theorem remove (h : RolesKept asset grants) (address : Bytes) :
    RolesKept (removeRole address asset) (update grants address none) := by
  have hsub : (removeRole address asset).roles.Sublist asset.roles := filter_sublist
  refine ⟨h.nodup.sublist (hsub.map _), hsub.length_le.trans h.bounded, fun other howner => ?_⟩
  rw [getRole_of_not_owner _ howner, removeRole, update_apply, ← h.granted other howner,
    getRole_of_not_owner asset howner, find?_filter]
  split
  · simp_all
  · refine congrArg (fun p => find? p asset.roles) (funext fun r => ?_)
    grind

end RolesKept

/-- What an accepted call does to the asset. -/
theorem RoleStep.call_spec {step : RoleStep} (h : step.call P fc asset = .ok asset') :
    match step.grant with
    | some (address, some role) => address = role.address ∧
        ∃ roles, asset' = { asset with roles := roles } ∧ SetsRole role asset.roles roles
    | some (address, none) => asset' = Kda.removeRole address asset
    | none => asset' = asset := by
  cases step with
  | addRole sender canAddRoles role =>
    simp only [RoleStep.call, handleAddRole, bind_eq_ok, pure_eq_ok] at h
    obtain ⟨_, -, _, -, _, -, _, -, rfl⟩ := h
    exact ⟨rfl, _, rfl, setsRole_setRole⟩
  | removeRole sender toAddress =>
    simp only [RoleStep.call, handleRemoveRole, bind_eq_ok, pure_eq_ok] at h
    obtain ⟨_, -, rfl⟩ := h
    rfl
  | updateStatus sender status =>
    simp only [RoleStep.call, Kda.updateStatus, bind_eq_ok] at h
    obtain ⟨_, -, h⟩ := h
    cases status <;> cases h
    · exact ⟨rfl, _, rfl, setsRole_setFirstRole⟩
    · rfl
  | config sender status otherChecks =>
    simp only [RoleStep.call, Kda.config, bind_eq_ok] at h
    obtain ⟨_, -, _, -, h⟩ := h
    cases status <;> simp only [setITOStatus] at h
    · split at h <;> cases h
      rfl
    · cases h
      exact ⟨rfl, _, rfl, setsRole_setFirstRole⟩
    · cases h
      rfl
    · cases h

/-- A call keeps the list exactly if it fits. -/
theorem RolesKept.perform_iff (h : RolesKept s.1 s.2) (step : RoleStep) :
    RolesKept (perform P fc s step).1 (perform P fc s step).2 ↔ step.Fits P fc s.1 := by
  unfold perform RoleStep.Fits
  cases hcall : step.call P fc s.1 with
  | error e => exact iff_of_true h nofun
  | ok asset =>
    have hspec := RoleStep.call_spec hcall
    cases hgrant : step.grant with
    | none =>
      rw [hgrant] at hspec
      exact iff_of_true (hspec ▸ h) nofun
    | some grant =>
      obtain ⟨address, _ | role⟩ := grant <;> rw [hgrant] at hspec
      · exact iff_of_true (hspec ▸ h.remove address) nofun
      · obtain ⟨rfl, roles, rfl, hset⟩ := hspec
        refine (RolesKept.set_iff h hset).trans ⟨?_, fun hfits => hfits rfl _ _ rfl⟩
        rintro hroom - _ _ ⟨⟩
        exact hroom

/-! ## Whole runs -/

/-- The first entry of an address stays, by induction on the entries still to come. -/
theorem parseRoles_loop {tcRoles start : List RolesData} (hstart : (addresses start).Nodup)
    (h : tcRoles.foldlM (parseRole P) start = .ok roles) :
    (addresses roles).Nodup ∧ ∀ address, roles.find? (·.address == address) =
      (start.find? (·.address == address)).or (tcRoles.find? (·.address == address)) := by
  induction tcRoles generalizing start with
  | nil =>
    cases h
    exact ⟨hstart, fun _ => by simp⟩
  | cons newRole rest ih =>
    simp only [foldlM_cons, parseRole, bind_eq_ok, pure_eq_ok] at h
    obtain ⟨_, ⟨_, -, rfl⟩, h⟩ := h
    by_cases hold : start.any (·.address == newRole.address)
    · rw [if_pos hold] at h
      obtain ⟨hnodup, hfind⟩ := ih hstart h
      have hsome : (start.find? (·.address == newRole.address)).isSome := by simpa using hold
      refine ⟨hnodup, fun address => ?_⟩
      rw [hfind, find?_cons]
      split
      · next heq =>
        rw [eq_of_beq heq, Option.isSome_iff_exists] at hsome
        obtain ⟨role, hrole⟩ := hsome
        rw [hrole, Option.some_or, Option.some_or]
      · rfl
    · rw [if_neg hold] at h
      have hnew : (addresses (start ++ [newRole])).Nodup := by
        simp only [addresses, map_append, map_cons, map_nil]
        exact nodup_append.2 ⟨hstart, nodup_singleton _, by grind [addresses]⟩
      obtain ⟨hnodup, hfind⟩ := ih hnew h
      refine ⟨hnodup, fun address => ?_⟩
      rw [hfind, find?_append]
      grind

theorem create_kept_iff {tcRoles : List RolesData} (h : parseRoles P tcRoles = .ok roles) :
    RolesKept { asset with roles := roles } (grantAll tcRoles) ↔ CreateFits asset tcRoles := by
  obtain ⟨hnodup, hfind⟩ := @parseRoles_loop P roles tcRoles [] nodup_nil h
  simp only [find?_nil, Option.none_or] at hfind
  have hcard : roles.length = (addresses tcRoles).toFinset.card := by
    have hsame : (addresses tcRoles).toFinset = (addresses roles).toFinset := by
      ext address
      rw [mem_toFinset, mem_toFinset, mem_addresses, mem_addresses, hfind]
    rw [hsame, toFinset_card_of_nodup hnodup, addresses, length_map]
  constructor
  · intro hkept
    refine ⟨hcard ▸ hkept.bounded, fun address howner => ?_⟩
    rw [← hfind, ← hkept.granted address howner]
    exact (getRole_of_not_owner { asset with roles := roles } howner).symm
  · intro hfits
    refine ⟨hnodup, hcard ▸ hfits.bounded, fun address howner => ?_⟩
    rw [getRole_of_not_owner _ howner, hfind, hfits.granted address howner]

/-- The list is as it should be after the first calls of a run, however many. -/
def KeptThroughout (P : Platform) (fc : ForkController) (s : KDAData × Grants)
    (steps : List RoleStep) : Prop :=
  ∀ n, RolesKept ((steps.take n).foldl (perform P fc) s).1 ((steps.take n).foldl (perform P fc) s).2

theorem keptThroughout_iff (steps : List RoleStep) (s : KDAData × Grants) :
    KeptThroughout P fc s steps ↔ RolesKept s.1 s.2 ∧ AllFit P fc s steps := by
  induction steps generalizing s with
  | nil => simp [KeptThroughout, AllFit]
  | cons step rest ih =>
    unfold KeptThroughout
    rw [← Nat.and_forall_add_one]
    refine and_congr_right fun h => ?_
    exact (ih (perform P fc s step)).trans (and_congr_left' (h.perform_iff step))

/-- **The roles of an asset stay unique, bounded and as granted exactly if every call fits.** -/
theorem roles_kept_iff (P : Platform) (fc : ForkController) (asset : KDAData)
    {tcRoles roles : List RolesData} (hcreate : parseRoles P tcRoles = .ok roles)
    (steps : List RoleStep) :
    KeptThroughout P fc ({ asset with roles := roles }, grantAll tcRoles) steps ↔
      CreateFits asset tcRoles ∧
        AllFit P fc ({ asset with roles := roles }, grantAll tcRoles) steps := by
  rw [keptThroughout_iff, create_kept_iff hcreate]

end

/-- An asset of the address `[1]`. -/
def ownAsset : KDAData := ⟨.Fungible, [88], [1], [], none, false, false, false, [], 0, 0, 0⟩

def twentyRoles : List RolesData :=
  (range 20).map fun i => ⟨[UInt8.ofNat (i + 2)], true, false, false, false⟩

theorem roles_kept_iff_full :
    ¬ KeptThroughout samplePlatform .allActive ({ ownAsset with roles := twentyRoles },
      grantAll twentyRoles) [.addRole [1] true ⟨[22], true, false, false, false⟩] := by
  have hcreate : parseRoles samplePlatform twentyRoles = .ok twentyRoles := by rfl
  rw [roles_kept_iff samplePlatform .allActive ownAsset hcreate]
  intro h
  exact absurd (h.2.1 rfl _ _ rfl) (by decide)

theorem twenty_first_role :
    (parseRoles samplePlatform twentyRoles).toOption = some twentyRoles ∧
    (handleAddRole samplePlatform .allActive [1] true ⟨[22], true, false, false, false⟩
      { ownAsset with roles := twentyRoles }).toOption.map (·.roles.length) = some 21 := by
  decide

end KleverGo.Kda
