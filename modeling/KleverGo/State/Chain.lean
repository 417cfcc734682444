import KleverGo.State.Assets
import KleverGo.State.Peers
import KleverGo.State.Permissions
import KleverGo.State.Proposals
import KleverGo.State.Validators

/-!
# The chain state

The accounts and KApp storages that the modelled calls share.  Calls see one instance of each
account (the accounts cache hands out shared pointers since `ProcessorFlowITOPrice`), so a call
is a function from states to states.

`Chain.total` adds up the user balances of an asset, and `Chain.Pays` is the specification of
every payment: the totals shift by a given amount of each asset, and nothing but asset balances
of users changes.
-/

namespace KleverGo

open UserAccount UserAccount

/-- `kapps.MarketOrderData_EnumMarketType` -/
inductive MarketType where
  | BuyItNow | Auction
  deriving DecidableEq, Repr

structure Marketplace where
  (id name ownerAddress referralAddress : Bytes)
  referralPercentage : UInt32
  deriving DecidableEq, Repr

/-- `kapps.MarketOrderData`; empty byte fields are Go's `nil`. -/
structure MarketOrderData where
  id : Bytes
  marketplaceID : Bytes
  marketType : MarketType
  (ownerAddress assetID collectionID currencyID : Bytes)
  price : Int64
  reservePrice : Int64
  currentBidder : Bytes
  currentBid : Int64
  royaltiesFixedDeposit : Int64
  referralPercentage : UInt32
  startTime : Int64
  endTime : Int64
  isClaimed : Bool
  royaltyPercentage : UInt32
  royaltySnapshotted : Bool
  referralAddress : Bytes
  referralSnapshotted : Bool
  deriving DecidableEq, Repr

/-- The storage of the market KApp: orders, marketplaces and the KDA records in escrow. -/
structure MarketStore where
  orders : FMap Bytes MarketOrderData
  marketplaces : FMap Bytes Marketplace
  kdas : KDARecords

structure Chain where
  users : FMap Bytes UserAccount
  kdas : FMap Bytes KDAData
  market : MarketStore
  staking : FMap Bytes StakingData := ∅
  validators : ValidatorStore := .empty
  proposals : ProposalStore := .empty
  peers : FMap Bytes PeerAccount := ∅
  /-- the `Permissions` of the user accounts -/
  permissions : FMap Bytes (List Permission) := ∅
  /-- the `Nonce` of the user accounts -/
  nonces : FMap Bytes UInt64 := ∅

namespace Chain

variable (s : Chain)

variable (address : Bytes)

def getExistingUser : Except Err UserAccount := do
  reject (address = []) .ErrNilAddress
  orError (s.users.lookup address) .ErrAccNotFound

/-- `accountsCacher.LoadUser`: a missing account is created. -/
def loadUser : Except Err UserAccount := do
  reject (address = []) .ErrNilAddress
  pure ((s.users.lookup address).getD empty)

def setUser (a : UserAccount) : Chain :=
  { s with users := s.users.insert address a }

/-- `kdaKapp.GetKDA`: no asset, and no error, for a `nil` identifier. -/
def getKDA (assetID : Option Bytes) : Except Err (Option KDAData) :=
  match assetID with
  | none => .ok none
  | some id => some <$> orError (s.kdas.lookup id) Err.ErrAssetNotFound

def setKDA (assetID : Bytes) (kda : KDAData) : Chain :=
  { s with kdas := s.kdas.insert assetID kda }

def getStaking (assetID : Bytes) : Except Err StakingData :=
  orError (s.staking.lookup assetID) .ErrStakingNotFound

def setStaking (assetID : Bytes) (staking : StakingData) : Chain :=
  { s with staking := s.staking.insert assetID staking }

/-- `accountsCacher.LoadPeer`: a missing account is created. -/
def loadPeer (pubKey : Bytes) : Except Err PeerAccount := do
  reject (pubKey = []) .ErrNilAddress
  pure ((s.peers.lookup pubKey).getD PeerAccount.new)

/-- `accountsCacher.UpdatePeer` of the account of a key. -/
def updatePeer (pubKey : Bytes) (p : PeerAccount) : Chain :=
  { s with peers := s.peers.insert pubKey p }

/-- `LoadUser`, `AddToBalance` and `UpdateUser`, with the codes every caller returns. -/
def creditLoaded (value : Int64) (assetID : Option Bytes) : Except TxError Chain := do
  let acc ← withCode .LoadAccountError (s.loadUser address)
  let acc ← withCode .BalanceError (acc.addToBalance value assetID)
  pure (s.setUser address acc)

/-! ## Totals -/

/-- The sum of all user balances of each asset. -/
def total (assetID : Bytes) : Int :=
  s.users.sumBy fun _ a => (a.getBalance assetID).toInt

/-- The record an account stores under a key. -/
def record (address key : Bytes) : Option UserKDA :=
  (s.users.lookup address).bind (·.kdas.lookup key)

/-- No user owes anything in an asset.  (An identifier with a separator would name the record of
an item.) -/
def Solvent : Prop :=
  ∀ address a, s.users.lookup address = some a → ∀ x, sp ∉ x → 0 ≤ (a.getBalance x).toInt

/-- The totals shift by `δ`, through balances of the assets in `xs` only. -/
structure Pays (xs : Set Bytes) (δ : Bytes → Int) (s s' : Chain) : Prop where
  shifts : Shifts total δ s s'
  solvent : s.Solvent → s'.Solvent
  records : ∀ address key, (∀ x ∈ xs, key ≠ toKDAKey x []) →
    s'.record address key = s.record address key
  kdas : s'.kdas = s.kdas
  market : s'.market = s.market

theorem lookup_setUser (address address' : Bytes) (a : UserAccount) :
    (s.setUser address a).users.lookup address' =
      if address' = address then some a else s.users.lookup address' :=
  FMap.lookup_insert_eq s.users address address' a

variable {address : Bytes} {a : UserAccount}

theorem getExistingUser_spec {s : Chain} (h : s.getExistingUser address = .ok a) :
    address ≠ [] ∧ s.users.lookup address = some a := by
  simp only [getExistingUser, bind_eq_ok, reject_eq_ok, orError_eq_ok] at h
  obtain ⟨_, hne, ha⟩ := h
  exact ⟨hne, ha⟩

theorem empty_getBalance (x : Bytes) : empty.getBalance x = 0 := by
  unfold getBalance
  split <;> rfl

variable {x : Bytes}

/-- An account, or the empty one in place of a missing account, has no negative balance. -/
theorem Solvent.getD {s : Chain} (h : s.Solvent) (address : Bytes) (hx : sp ∉ x) :
    0 ≤ (((s.users.lookup address).getD empty).getBalance x).toInt := by
  cases ha : s.users.lookup address with
  | none => simp [empty_getBalance]
  | some a => exact h address a ha x hx

/-- Writing one account moves the totals by the difference of its balances. -/
theorem total_setUser (address : Bytes) (a : UserAccount) (x : Bytes) :
    (s.setUser address a).total x = s.total x + ((a.getBalance x).toInt -
      (((s.users.lookup address).getD empty).getBalance x).toInt) := by
  have h := FMap.sumBy_insert (fun _ a => (getBalance a x).toInt) s.users address a
  unfold total setUser
  cases ha : s.users.lookup address with
  | none => simp [ha, empty_getBalance] at h ⊢; omega
  | some b => simp [ha] at h ⊢; omega

theorem record_setUser (address address' : Bytes) (a : UserAccount) (key : Bytes) :
    (s.setUser address a).record address' key =
      if address' = address then a.kdas.lookup key else s.record address' key := by
  unfold record
  rw [lookup_setUser]
  split <;> simp

/-- Crediting the stored account of a user, or a new one, is a payment. -/
theorem pays_setUser {s : Chain} {v : Int}
    (h : Credited x v ((s.users.lookup address).getD empty) a) :
    Pays {x} (entry x v) s (s.setUser address a) where
  shifts y := by
    rw [total_setUser]
    by_cases hy : y = x
    · subst hy
      rw [h.self, entry_self]
      omega
    · rw [h.other y hy, entry_ne hy]
      omega
  solvent hs address' b hb y hsp := by
    rw [lookup_setUser] at hb
    split at hb
    · cases hb
      by_cases hy : y = x
      · exact hy ▸ h.nonneg
      · rw [h.other y hy]
        exact hs.getD address hsp
    · exact hs address' b hb y hsp
  records address' key hkey := by
    rw [record_setUser]
    split
    · rename_i ha
      rw [h.records key (hkey x rfl), ha, record]
      cases s.users.lookup address <;> rfl
    · rfl
  kdas := rfl
  market := rfl

namespace Pays

variable {xs ys : Set Bytes} {δ δ' : Bytes → Int} {s s1 s2 : Chain}

theorem refl (xs : Set Bytes) (s : Chain) : Pays xs 0 s s :=
  ⟨.refl _ s, id, fun _ _ _ => rfl, rfl, rfl⟩

theorem trans (h1 : Pays xs δ s s1) (h2 : Pays xs δ' s1 s2) : Pays xs (δ + δ') s s2 where
  shifts := h1.shifts.trans h2.shifts
  solvent := h2.solvent ∘ h1.solvent
  records a k hk := (h2.records a k hk).trans (h1.records a k hk)
  kdas := h2.kdas.trans h1.kdas
  market := h2.market.trans h1.market

theorem mono (h : Pays xs δ s s1) (hsub : xs ⊆ ys) : Pays ys δ s s1 :=
  ⟨h.shifts, h.solvent, fun a k hk => h.records a k fun x hx => hk x (hsub hx), h.kdas, h.market⟩

end Pays

variable {value : Int64} {assetID : Option Bytes} {acc acc' : UserAccount}

theorem pays_addToBalance {s : Chain} (ha : s.getExistingUser address = .ok acc)
    (h : acc.addToBalance value assetID = .ok acc') :
    Pays {assetOf assetID} (entry (assetOf assetID) value.toInt) s
      (s.setUser address acc') := by
  obtain ⟨-, ha⟩ := getExistingUser_spec ha
  have hacc : (s.users.lookup address).getD empty = acc := by rw [ha]; rfl
  exact pays_setUser (hacc ▸ (addToBalance_spec h).2)

/-- Debiting an existing account of a solvent chain pays exactly the value. -/
theorem pays_subFromBalance {s : Chain} (hs : s.Solvent) (hx : sp ∉ assetOf assetID)
    (ha : s.getExistingUser address = .ok acc) (h : acc.subFromBalance value assetID = .ok acc') :
    Pays {assetOf assetID} (entry (assetOf assetID) (-value.toInt)) s
      (s.setUser address acc') := by
  obtain ⟨-, ha⟩ := getExistingUser_spec ha
  have hacc : (s.users.lookup address).getD empty = acc := by rw [ha]; rfl
  have hpos := hs address acc ha _ hx
  exact pays_setUser (hacc ▸ (subFromBalance_spec hpos h).2)

/-- Crediting a loaded account pays exactly the value. -/
theorem creditLoaded_spec {s s' : Chain} (h : s.creditLoaded address value assetID = .ok s') :
    0 ≤ value.toInt ∧
      Pays {assetOf assetID} (entry (assetOf assetID) value.toInt) s s' := by
  simp only [creditLoaded, loadUser, bind_eq_ok, withCode_eq_ok, reject_eq_ok, pure_eq_ok] at h
  obtain ⟨a, ⟨_, -, rfl⟩, b, hb, rfl⟩ := h
  obtain ⟨hv, hc⟩ := addToBalance_spec hb
  exact ⟨hv, pays_setUser hc⟩

end Chain

end KleverGo
