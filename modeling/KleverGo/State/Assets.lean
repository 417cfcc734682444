import KleverGo.State.Accounts

/-!
# Assets

The part of `kapps.KDAData` that the modelled calls read, the permission checks of
`kapps/kda.go`, and the staking record of an asset.  Names, logos, links, initial and burned
supply and the mint, burn and ITO attributes are left out: no modelled call reads them.
-/

namespace KleverGo

/-- `KDAData_EnumAssetType` -/
inductive AssetType where
  | Fungible | NonFungible | SemiFungible
  deriving DecidableEq, Repr

structure RoyaltyData where
  amount : Int64
  percentage : UInt32
  deriving DecidableEq, Repr

structure RoyaltySplitData where
  (percentTransferPercentage percentTransferFixed percentMarketPercentage percentMarketFixed
    percentITOPercentage percentITOFixed : UInt32)
  deriving DecidableEq, Repr

/-- `kapps.RoyaltiesData`; the splits are keyed by hexadecimal addresses. -/
structure RoyaltiesData where
  address : Bytes
  transferPercentage : List RoyaltyData
  transferFixed : Int64
  marketPercentage : UInt32
  marketFixed : Int64
  splitRoyalties : FMap Bytes RoyaltySplitData
  itoPercentage : UInt32
  itoFixed : Int64

/-- `&kapps.RoyaltiesData{}` -/
def RoyaltiesData.zero : RoyaltiesData := ⟨[], [], 0, 0, 0, ∅, 0, 0⟩

structure RolesData where
  address : Bytes
  (hasRoleMint hasRoleSetITOPrices hasRoleDeposit hasRoleTransfer : Bool)
  deriving DecidableEq, Repr

structure KDAData where
  assetType : AssetType
  (id ownerAddress adminAddress : Bytes)
  royalties : Option RoyaltiesData
  /-- `Properties.LimitTransfer` -/
  limitTransfer : Bool
  /-- `Attributes.IsPaused` -/
  isPaused : Bool
  /-- `Attributes.IsRoyaltiesChangeStopped` -/
  isRoyaltiesChangeStopped : Bool
  roles : List RolesData
  (circulatingSupply maxSupply mintedValue : Int64)

def matchesAddress (expected address : Bytes) : Bool := !address.isEmpty && expected == address

namespace KDAData

section

variable (kda : KDAData) (address : Bytes)

def isOwner : Bool := matchesAddress kda.ownerAddress address

def isOwnerOrAdmin : Bool :=
  kda.isOwner address || matchesAddress kda.adminAddress address

/-- `KDAData.GetRoleByAddress`; `none` is `ErrRoleNotFound`. -/
def getRoleByAddress : Option RolesData :=
  if kda.isOwnerOrAdmin address then some ⟨address, true, true, true, true⟩
  else kda.roles.find? fun role => role.address == address

end

def canSenderTransfer (kda : KDAData) (sender : Bytes) : Bool :=
  !kda.limitTransfer || (kda.getRoleByAddress sender).any (·.hasRoleTransfer)

def isTransferAllowed (kda : KDAData) (sender destination : Bytes) : Bool :=
  kda.canSenderTransfer sender || (kda.getRoleByAddress destination).any (·.hasRoleDeposit)

end KDAData

/-! ## Staking records -/

/-- `StakingData_EnumInterestType` -/
inductive InterestType where
  | APRI | FPRI
  deriving DecidableEq, Repr

/-- `kapps.APRData`: the rate from a time on. -/
structure APRData where
  timestamp : Int64
  value : UInt32
  deriving DecidableEq, Repr

structure KDAFPRData where
  totalAmount : Int64
  totalClaimed : Int64
  deriving DecidableEq, Repr

/-- `kapps.FPRData`: the reward pool of an epoch, in KLV and in other assets. -/
structure FPRData where
  totalAmount : Int64
  totalStaked : Int64
  epoch : UInt32
  totalClaimed : Int64
  kdas : FMap Bytes KDAFPRData

structure StakingData where
  interestType : InterestType
  apr : List APRData
  fpr : List FPRData
  totalStaked : Int64
  (minEpochsToClaim minEpochsToUnstake minEpochsToWithdraw : UInt32)

/-- `types.OrderedKeys`: the keys of a map, in ascending order when `sorted` is set. -/
def orderedKeys {ν : Type} (m : FMap Bytes ν) (sorted : Bool) : List Bytes :=
  if sorted then m.keys.insertionSort (· ≤ ·) else m.keys

end KleverGo
