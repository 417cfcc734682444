import KleverGo.Core.Context
import KleverGo.Lib.MachineInt
import KleverGo.Lib.Accounting

/-!
# User accounts

A user account holds its KLV balance in the account itself and everything else in records of its
data trie: one `UserKDA` for each asset it owns and one for each item of a collection.  A record
whose encoding is empty is not stored, so a key is bound exactly when its record is not empty.

The module models the balance operations of `data/state/userAccount.go`.  Their common
specification is `Account.Credited`: one asset moves by an exact amount and no item record
changes.  The model is the one with the `checkDirtData` argument set, its value since
`EnableSmartContracts`.
-/

namespace KleverGo

open Amount

structure LastClaim where
  timestamp : Int64
  epoch : UInt32
  deriving DecidableEq, Repr

/-- `kapps.StakeSegment`: `value` was staked for every reward epoch in
`(stakedEpoch, throughEpoch]`. -/
structure StakeSegment where
  stakedEpoch : UInt32
  throughEpoch : UInt32
  value : Int64
  deriving DecidableEq, Repr

/-- `kapps.UserBucket`; an empty delegation is Go's `nil`. -/
structure UserBucket where
  stakedAt : Int64
  stakedEpoch : UInt32
  unstakedEpoch : UInt32
  value : Int64
  delegation : Bytes
  history : List StakeSegment
  deriving DecidableEq, Repr

/-- `kapps.UserKDA`; `none` is Go's `nil` map or pointer. -/
structure UserKDA where
  balance : Int64
  frozenBalance : Int64
  lastClaim : Option LastClaim
  buckets : Option (FMap Bytes UserBucket)
  mime : Bytes
  metadata : Bytes

namespace UserKDA

/-- The record `GetUserKDA` starts from when nothing is stored. -/
def fresh : UserKDA := ⟨0, 0, some ⟨0, 0⟩, some ∅, [], []⟩

/-- The buckets, none for a `nil` map. -/
def bucketMap (k : UserKDA) : FMap Bytes UserBucket := k.buckets.getD ∅

/-- Whether the encoding of the record is empty. -/
def isEmpty (k : UserKDA) : Bool :=
  k.balance == 0 && k.frozenBalance == 0 && k.lastClaim.isNone && k.bucketMap.entries.isEmpty &&
    k.mime.isEmpty && k.metadata.isEmpty

/-- What reading the encoding of a record back gives: a map without entries comes back `nil`. -/
def decoded (k : UserKDA) : UserKDA :=
  { k with buckets := if k.bucketMap.entries.isEmpty then none else some k.bucketMap }

/-- A record as it is read back after `SetUserKDA`. -/
def readBack (k : UserKDA) : UserKDA := if k.isEmpty then fresh else k.decoded

theorem readBack_spec (k : UserKDA) : k.readBack.balance = k.balance ∧
    k.readBack.frozenBalance = k.frozenBalance ∧ k.readBack.bucketMap = k.bucketMap := by
  unfold readBack
  split
  · rename_i h
    simp only [isEmpty, Bool.and_eq_true, beq_iff_eq] at h
    obtain ⟨⟨⟨⟨⟨hbalance, hfrozen⟩, -⟩, hbuckets⟩, -⟩, -⟩ := h
    exact ⟨hbalance.symm, hfrozen.symm, (AList.ext (List.isEmpty_iff.1 hbuckets)).symm⟩
  · refine ⟨rfl, rfl, ?_⟩
    change (if k.bucketMap.entries.isEmpty then none else some k.bucketMap).getD ∅ = k.bucketMap
    split
    · rename_i hbuckets
      exact (AList.ext (List.isEmpty_iff.1 hbuckets)).symm
    · rfl

end UserKDA

/-- `state.UserAccountData` with its data trie, whose keys are those of `toKDAKey`. -/
structure UserAccount where
  balance : Int64
  allowance : Int64
  kdas : FMap Bytes UserKDA

namespace UserAccount

def empty : UserAccount := ⟨0, 0, ∅⟩

/-- The asset an optional identifier names: `nil` is KLV. -/
def assetOf (assetID : Option Bytes) : Bytes := assetID.getD KLVIdentifier

variable (a : UserAccount)

def getUserKDA (assetID nonce : Bytes) : UserKDA :=
  (a.kdas.lookup (toKDAKey assetID nonce)).getD UserKDA.fresh

/-- `userAccount.SetUserKDA`: a record with an empty encoding is deleted. -/
def setUserKDA (assetID nonce : Bytes) (k : UserKDA) : UserAccount :=
  { a with
    kdas :=
      if k.isEmpty then a.kdas.erase (toKDAKey assetID nonce)
      else a.kdas.insert (toKDAKey assetID nonce) k.decoded }

def getBalance (assetID : Bytes) : Int64 :=
  if assetID = KLVIdentifier then a.balance else (a.getUserKDA assetID []).balance

/-- The account with another balance of one asset. -/
def setBalance (assetID : Bytes) (balance : Int64) : UserAccount :=
  if assetID = KLVIdentifier then { a with balance }
  else a.setUserKDA assetID [] { a.getUserKDA assetID [] with balance }

/-- A change of one balance, unless it becomes negative. -/
def changeBalance (assetID : Bytes) (change : Int64 → Int64) (err : Err) :
    Except Err UserAccount := do
  reject (change (a.getBalance assetID) < 0) err
  pure (a.setBalance assetID (change (a.getBalance assetID)))

def addToBalance (value : Int64) (assetID : Option Bytes) : Except Err UserAccount := do
  reject (value < 0) .ErrInvalidValue
  a.changeBalance (assetOf assetID) (· + value) .ErrAddBalanceOverflow

def subFromBalance (value : Int64) (assetID : Option Bytes) : Except Err UserAccount := do
  reject (value < 0) .ErrInvalidValue
  a.changeBalance (assetOf assetID) (· - value) .ErrInsufficientFunds

/-! ## Effect of the balance operations -/

variable {a : UserAccount} {assetID : Bytes}

theorem lookup_setUserKDA_ne {nonce : Bytes} {k : UserKDA} {key : Bytes}
    (h : key ≠ toKDAKey assetID nonce) :
    (a.setUserKDA assetID nonce k).kdas.lookup key = a.kdas.lookup key := by
  unfold setUserKDA
  split
  · exact AList.lookup_erase_ne h
  · exact AList.lookup_insert_ne h

theorem getUserKDA_setUserKDA (a : UserAccount) (x y : Bytes) (k : UserKDA) :
    (a.setUserKDA x [] k).getUserKDA y [] = if y = x then k.readBack else a.getUserKDA y [] := by
  split
  · rename_i hy
    subst hy
    unfold setUserKDA getUserKDA UserKDA.readBack
    split <;> simp
  · rename_i hy
    rw [getUserKDA, lookup_setUserKDA_ne fun h => hy (toKDAKey_plain_injective h)]
    rfl

theorem getBalance_setUserKDA (a : UserAccount) (x y : Bytes) (k : UserKDA) :
    (a.setUserKDA x [] k).getBalance y =
      if y = x ∧ x ≠ KLVIdentifier then k.balance else a.getBalance y := by
  unfold getBalance
  rw [getUserKDA_setUserKDA, ← k.readBack_spec.1]
  by_cases hy : y = x
  · subst hy
    by_cases hk : y = KLVIdentifier
    · simp only [hk, ne_eq, not_true_eq_false, and_false, if_true, if_false]
      rfl
    · simp only [hk, ne_eq, not_false_eq_true, and_self, if_true, if_false]
  · simp only [hy, false_and, if_false]
    rfl

theorem getBalance_setBalance (a : UserAccount) (x y : Bytes) (b : Int64) :
    (a.setBalance x b).getBalance y = if y = x then b else a.getBalance y := by
  unfold setBalance
  split
  · rename_i hx
    subst hx
    by_cases hy : y = KLVIdentifier <;> simp [getBalance, hy, getUserKDA]
  · rename_i hx
    rw [getBalance_setUserKDA]
    simp only [hx, ne_eq, not_false_eq_true, and_true]

theorem getUserKDA_setBalance (a : UserAccount) (x y : Bytes) (b : Int64) :
    ((a.setBalance x b).getUserKDA y []).frozenBalance = (a.getUserKDA y []).frozenBalance ∧
      ((a.setBalance x b).getUserKDA y []).bucketMap = (a.getUserKDA y []).bucketMap := by
  unfold setBalance
  split
  · exact ⟨rfl, rfl⟩
  rw [getUserKDA_setUserKDA]
  split
  · rename_i hy
    subst hy
    exact (UserKDA.readBack_spec _).2
  · exact ⟨rfl, rfl⟩

/-- The balance of `x` moves by exactly `v` and ends up not negative; nothing else moves. -/
structure Credited (x : Bytes) (v : Int) (a a' : UserAccount) : Prop where
  self : (a'.getBalance x).toInt = (a.getBalance x).toInt + v
  other : ∀ y, y ≠ x → a'.getBalance y = a.getBalance y
  nonneg : 0 ≤ (a'.getBalance x).toInt
  records : ∀ k, k ≠ toKDAKey x [] → a'.kdas.lookup k = a.kdas.lookup k

theorem credited_setBalance {x : Bytes} {b : Int64} {v : Int}
    (hb : b.toInt = (a.getBalance x).toInt + v) (hn : 0 ≤ b.toInt) :
    Credited x v a (a.setBalance x b) where
  self := by rw [getBalance_setBalance, if_pos rfl, hb]
  other y hy := by rw [getBalance_setBalance, if_neg hy]
  nonneg := by rwa [getBalance_setBalance, if_pos rfl]
  records k hk := by
    unfold setBalance
    split
    · rfl
    · exact lookup_setUserKDA_ne hk

variable {a' : UserAccount} {value : Int64} {assetID : Option Bytes}

/-- `AddToBalance` credits exactly the value it is given. -/
theorem addToBalance_spec (h : a.addToBalance value assetID = .ok a') :
    0 ≤ value.toInt ∧ Credited (assetOf assetID) value.toInt a a' := by
  simp only [addToBalance, changeBalance, bind_eq_ok, reject_eq_ok, pure_eq_ok, not_neg_iff] at h
  obtain ⟨_, hv, _, hn, rfl⟩ := h
  exact ⟨hv, credited_setBalance (toInt_add hv hn) hn⟩

/-- `SubFromBalance` debits exactly the value it is given from a balance that is not
negative. -/
theorem subFromBalance_spec (hpos : 0 ≤ (a.getBalance (assetOf assetID)).toInt)
    (h : a.subFromBalance value assetID = .ok a') :
    0 ≤ value.toInt ∧ Credited (assetOf assetID) (-value.toInt) a a' := by
  simp only [subFromBalance, changeBalance, bind_eq_ok, reject_eq_ok, pure_eq_ok,
    not_neg_iff] at h
  obtain ⟨_, hv, _, hn, rfl⟩ := h
  exact ⟨hv, credited_setBalance (by rw [toInt_sub hpos hv]; omega) hn⟩

end UserAccount

/-- The data trie of an account or of a KApp, as far as it holds KDA records. -/
abbrev KDARecords := FMap Bytes UserKDA

/-- `AddInternalKDA` of a user or KApp account -/
def addInternalKDA (records : KDARecords) (assetID internalID : Bytes) (data : UserKDA) :
    Except Err KDARecords := do
  reject data.isEmpty .ErrAssetNotFound
  pure (records.insert (toKDAKey assetID internalID) data)

/-- `SubInternalKDA` of a user or KApp account -/
def subInternalKDA (records : KDARecords) (assetID internalID : Bytes) :
    Except Err (KDARecords × UserKDA) := do
  let data ← orError (records.lookup (toKDAKey assetID internalID)) Err.ErrAssetNotFound
  pure (records.erase (toKDAKey assetID internalID), data)

variable {records records' : KDARecords} {assetID internalID : Bytes} {data : UserKDA}

theorem addInternalKDA_spec (h : addInternalKDA records assetID internalID data = .ok records') :
    records' = records.insert (toKDAKey assetID internalID) data := by
  simp only [addInternalKDA, bind_eq_ok, pure_eq_ok] at h
  obtain ⟨_, _, rfl⟩ := h
  rfl

theorem subInternalKDA_spec (h : subInternalKDA records assetID internalID = .ok (records', data)) :
    records.lookup (toKDAKey assetID internalID) = some data ∧
      records' = records.erase (toKDAKey assetID internalID) := by
  simp only [subInternalKDA, bind_eq_ok, orError_eq_ok, pure_eq_ok, Prod.mk.injEq] at h
  obtain ⟨_, hd, rfl, rfl⟩ := h
  exact ⟨hd, rfl⟩

end KleverGo
