import KleverGo.Core.Context

/-!
# Account permissions

The permissions of a user account (`data/state/userAccount.go`): each names signers with weights
and a threshold their weights have to reach, and a permission of user type also a mask of the
contract types it grants.
-/

namespace KleverGo

/-- `Permission_PermissionType` -/
inductive PermissionType where
  | Owner | User
  deriving DecidableEq, Repr

structure Key where
  address : Bytes
  weight : Int64
  deriving DecidableEq, Repr

structure Permission where
  id : Int32
  type : PermissionType
  permissionName : Bytes
  threshold : Int64
  operations : Bytes
  signers : List Key
  deriving DecidableEq, Repr

/-- The permission of an account that has none: its own key. -/
def ownerPermission (address : Bytes) (id : Int32) : Permission :=
  ⟨id, .Owner, [], 1, [], [⟨address, 1⟩]⟩

/-- `userAccount.GetPermission` of the account at `address`, without the flag for a stored one. -/
def getPermission (address : Bytes) (permissions : List Permission) (id : Int32) :
    Except Err Permission :=
  if permissions.isEmpty then
    if id = 0 then .ok (ownerPermission address 0) else .error .ErrInvalidPermissionID
  else orError (permissions.find? fun p => p.id = id) .ErrInvalidPermissionID

/-- `CheckPermissionGrantedForContract`, with the byte and the bit of `getPermissionMask`. -/
def checkPermissionGrantedForContract (permissions : Bytes) (contractType : UInt32) : Bool :=
  (permissions[(contractType / 8).toNat]?).any fun byte =>
    byte &&& (1 <<< (contractType % 8).toUInt8) != 0

/-- `CheckPermissionGrantedForContracts` of a permission and one contract type. -/
def Permission.checkPermissionGrantedForContracts (p : Permission) (contractType : UInt32) : Bool :=
  p.type == .Owner ||
    (!p.operations.isEmpty && checkPermissionGrantedForContract p.operations contractType)

end KleverGo
