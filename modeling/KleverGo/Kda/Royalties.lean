import KleverGo.State.Chain

/-!
# Royalty updates of the KDA KApp

The triggers of `core/kapp/kda/trigger.go` that change the royalties of an asset:
`UpdateRoyalties`, `ChangeRoyaltiesReceiver` and `StopRoyaltiesChange`, each behind the dispatch
of `Trigger`.

`royaltyTrigger_spec` says what an accepted one leaves: the asset under its key, of the same
type, and for a collection of items a market percentage of at most one hundred percent and a
fixed market royalty that is not negative.
-/

namespace KleverGo

structure RoyaltiesInfo where
  address : Bytes
  transferPercentage : List RoyaltyData
  transferFixed : Int64
  marketPercentage : UInt32
  marketFixed : Int64
  splitRoyalties : FMap Bytes RoyaltySplitData
  itoFixed : Int64
  itoPercentage : UInt32

/-- The royalty triggers of `transaction.AssetTriggerContract` with the fields they read. -/
inductive RoyaltyTrigger where
  | UpdateRoyalties (royalties : Option RoyaltiesInfo)
  | ChangeRoyaltiesReceiver (toAddress : Bytes)
  | StopRoyaltiesChange

namespace Kda

variable (P : Platform) (fc : ForkController)

def MaxTransferRoyalties : Nat := 20

def checkValid100Params (values : List UInt32) : Bool := values.all (· ≤ HundredPercent)

variable (info : RoyaltiesInfo)

def validateRoyaltiesTransferLimit : Except Err Unit :=
  reject (MaxTransferRoyalties < info.transferPercentage.length ∨
    MaxTransferRoyalties < info.splitRoyalties.entries.length) .ErrInvalidValue

def validateSplitRoyaltyPercentages (fixActive : Bool) : Except Err Unit :=
  reject (fixActive ∧ ¬ info.splitRoyalties.entries.all fun e =>
    checkValid100Params [e.2.percentTransferPercentage, e.2.percentTransferFixed,
      e.2.percentMarketPercentage, e.2.percentMarketFixed, e.2.percentITOPercentage,
      e.2.percentITOFixed]) .ErrInvalidValue

section

variable (splits : FMap Bytes RoyaltySplitData)

/-- The addresses of the splits decode to account addresses. -/
def splitAddressesValid : Bool :=
  splits.entries.all fun e => (hexDecode e.1).any fun a => a.length == P.addressLen

/-- The sum of one percentage over the splits, in `uint32`. -/
def sumSplit (f : RoyaltySplitData → UInt32) : UInt32 :=
  (splits.entries.map fun e => f e.2).sum

/-- The splits with the percentages the asset type keeps. -/
def keepSplits (f : RoyaltySplitData → RoyaltySplitData) : FMap Bytes RoyaltySplitData :=
  splits.entries.foldl (fun m e => m.insert e.1 (f e.2)) ∅

end

def handleUpdateRoyaltiesNFTandSFT (royalties : RoyaltiesData) : Except TxError RoyaltiesData := do
  reject (¬ splitAddressesValid P info.splitRoyalties)
    (fail .AccountError .ErrInvalidSplitRoyaltiesAddr)
  let sum := sumSplit info.splitRoyalties
  reject (¬ checkValid100Params [sum (·.percentMarketPercentage), sum (·.percentMarketFixed),
    sum (·.percentTransferFixed), sum (·.percentITOPercentage), sum (·.percentITOFixed)])
    (fail .ParameterInvalid .ErrInvalidValue)
  reject (¬ checkValid100Params [info.marketPercentage, info.itoPercentage])
    (fail .ParameterInvalid .ErrInvalidValue)
  reject (info.marketFixed < 0) (fail .ParameterInvalid .ErrInvalidValue)
  reject (info.itoFixed < 0) (fail .ParameterInvalid .ErrInvalidValue)
  reject (info.transferFixed < 0) (fail .ParameterInvalid .ErrInvalidValue)
  pure { royalties with
    transferFixed := info.transferFixed
    marketFixed := info.marketFixed
    marketPercentage := info.marketPercentage
    itoFixed := info.itoFixed
    itoPercentage := info.itoPercentage
    splitRoyalties := keepSplits info.splitRoyalties
      ({ · with percentTransferPercentage := 0 }) }

def processSplitRoyalties : Except TxError (FMap Bytes RoyaltySplitData) := do
  reject (¬ splitAddressesValid P info.splitRoyalties)
    (fail .AccountError .ErrInvalidSplitRoyaltiesAddr)
  let sum := sumSplit info.splitRoyalties
  reject (¬ checkValid100Params [sum (·.percentTransferPercentage), sum (·.percentTransferFixed),
    sum (·.percentITOPercentage), sum (·.percentITOFixed)])
    (fail .ParameterInvalid .ErrInvalidValue)
  pure (keepSplits info.splitRoyalties
    ({ · with percentMarketPercentage := 0, percentMarketFixed := 0 }))

def validateRoyalties (checkMarketPercentage : Bool) : Except Err Unit := do
  reject (¬ checkValid100Params [info.itoPercentage]) .ErrInvalidValue
  reject (checkMarketPercentage ∧ ¬ checkValid100Params [info.marketPercentage]) .ErrInvalidValue
  reject (info.itoFixed < 0 ∨ info.transferFixed < 0) .ErrInvalidValue

def processRoyaltiesTransferPercentage (tp : List RoyaltyData) : Except Err (List RoyaltyData) := do
  reject (tp.any fun r => r.amount < 0 || HundredPercent < r.percentage) .ErrInvalidValue
  pure (tp.insertionSort fun a b => a.amount ≤ b.amount)

def handleUpdateRoyaltiesFT (royalties : RoyaltiesData) : Except TxError RoyaltiesData := do
  let splitRoyalties ← processSplitRoyalties P info
  withCode .ParameterInvalid (validateRoyalties info fc.enableSmartContracts)
  let tp ← withCode .ParameterInvalid (processRoyaltiesTransferPercentage info.transferPercentage)
  let royalties :=
    if fc.enableSmartContracts ∨ tp ≠ [] then { royalties with transferPercentage := tp }
    else royalties
  let royalties :=
    if fc.enableSmartContracts then
      { royalties with marketFixed := info.marketFixed, marketPercentage := info.marketPercentage }
    else royalties
  pure { royalties with
    transferFixed := info.transferFixed
    itoFixed := info.itoFixed
    itoPercentage := info.itoPercentage
    splitRoyalties := splitRoyalties }

/-- The receiver `updateRoyalties` stores: the given address or the owner's. -/
def royaltiesReceiver (asset : KDAData) (info : RoyaltiesInfo) : Except TxError Bytes := do
  if info.address = [] then pure asset.ownerAddress
  else
    reject (info.address.length ≠ P.addressLen) (fail .AccountError .ErrInvalidOwnerAddr)
    pure info.address

/-- The switch on the asset type in `updateRoyalties`. -/
def royaltiesForType (assetType : AssetType) (info : RoyaltiesInfo) (royalties : RoyaltiesData) :
    Except TxError RoyaltiesData :=
  match assetType with
  | .NonFungible | .SemiFungible => handleUpdateRoyaltiesNFTandSFT P info royalties
  | .Fungible => handleUpdateRoyaltiesFT P fc info royalties

def updateRoyalties (sender : Bytes) (royalties : Option RoyaltiesInfo) (asset : KDAData) :
    Except TxError KDAData := do
  reject (¬ asset.isOwnerOrAdmin sender) (failAt .AccountNotOwner .InvalidPermission .ErrAccNotOwner)
  reject asset.isRoyaltiesChangeStopped
    (failAt .RoyaltiesChangeStopped .RoyaltiesChangeStopped .ErrAssetTriggerInvalid)
  let info ← orError royalties (failAt .ParameterInvalid .InvalidRoyalties .ErrInvalidValue)
  let address ← royaltiesReceiver P asset info
  let current := { asset.royalties.getD RoyaltiesData.zero with address := address }
  withCode .ParameterInvalid (validateRoyaltiesTransferLimit info)
  withCode .ParameterInvalid (validateSplitRoyaltyPercentages info fc.fixMarketBuyOverflow)
  let updated ← royaltiesForType P fc asset.assetType info current
  pure { asset with royalties := some updated }

def updateRoyaltiesReceiver (sender toAddress : Bytes) (asset : KDAData) :
    Except TxError KDAData := do
  reject (¬ asset.isOwnerOrAdmin sender) (fail .AccountNotOwner .ErrAccNotOwner)
  reject (fc.fixAuditChangesV6 ∧ asset.isRoyaltiesChangeStopped)
    (failAt .RoyaltiesChangeStopped .RoyaltiesChangeStopped .ErrAssetTriggerInvalid)
  reject (toAddress.length ≠ P.addressLen) (fail .AccountError .ErrInvalidRcvAddr)
  pure { asset with
    royalties := some { asset.royalties.getD RoyaltiesData.zero with address := toAddress } }

def handleStopRoyaltiesChange (sender : Bytes) (asset : KDAData) : Except TxError KDAData := do
  reject (¬ asset.isOwnerOrAdmin sender) (failAt .AccountNotOwner .InvalidPermission .ErrAccNotOwner)
  reject asset.isRoyaltiesChangeStopped
    (failAt .RoyaltiesChangeStopped .RoyaltiesChangeStopped .ErrAssetTriggerInvalid)
  pure { asset with isRoyaltiesChangeStopped := true }

/-- `processTriggerType`, for the royalty triggers -/
def processTriggerType (sender : Bytes) (asset : KDAData) : RoyaltyTrigger → Except TxError KDAData
  | .UpdateRoyalties royalties => updateRoyalties P fc sender royalties asset
  | .ChangeRoyaltiesReceiver toAddress => updateRoyaltiesReceiver P fc sender toAddress asset
  | .StopRoyaltiesChange => handleStopRoyaltiesChange sender asset

/-- `Trigger`, for the royalty triggers -/
def royaltyTrigger (s : Chain) (sender : Bytes) (assetID : Option Bytes)
    (trigger : RoyaltyTrigger) : Except TxError Chain := do
  let assetID ← orError assetID (fail .AssetError .ErrInvalidValue)
  let parts := splitSp assetID
  reject (2 < parts.length ∨ parts.length = 0) (fail .AssetIDInvalid .ErrInvalidValue)
  let id := parts.headD []
  let asset ← withCode .KAPPError (orError (s.kdas.lookup id) .ErrAssetNotFound)
  let updated ← processTriggerType P fc sender asset trigger
  pure (s.setKDA id updated)

/-! ## What an accepted update leaves -/

variable {P : Platform} {fc : ForkController}

/-- The royalties of an asset are within the bounds every update checks for items. -/
def MarketBounds (asset : KDAData) : Prop :=
  asset.assetType = .NonFungible → ∀ r, asset.royalties = some r →
    r.marketPercentage ≤ HundredPercent ∧ 0 ≤ r.marketFixed.toInt

theorem handleUpdateRoyaltiesNFTandSFT_spec {info : RoyaltiesInfo} {royalties r : RoyaltiesData}
    (h : handleUpdateRoyaltiesNFTandSFT P info royalties = .ok r) :
    r.marketPercentage ≤ HundredPercent ∧ 0 ≤ r.marketFixed.toInt := by
  simp only [handleUpdateRoyaltiesNFTandSFT, bind_eq_ok, reject_eq_ok, pure_eq_ok] at h
  obtain ⟨_, _, _, _, _, hpct, _, hfixed, _, _, _, _, rfl⟩ := h
  rw [not_not] at hpct
  simp only [checkValid100Params, List.all_cons, Bool.and_eq_true, decide_eq_true_eq] at hpct
  exact ⟨hpct.1, Amount.not_neg_iff.1 hfixed⟩

variable {sender : Bytes} {asset asset' : KDAData}

theorem updateRoyalties_spec {royalties : Option RoyaltiesInfo}
    (h : updateRoyalties P fc sender royalties asset = .ok asset') :
    asset'.assetType = asset.assetType ∧ MarketBounds asset' := by
  simp only [updateRoyalties, bind_eq_ok, pure_eq_ok] at h
  obtain ⟨_, _, _, _, _, _, _, _, _, _, _, _, r, hr, rfl⟩ := h
  refine ⟨rfl, fun htype r' hr' => ?_⟩
  cases hr'
  have htype : asset.assetType = .NonFungible := htype
  rw [htype] at hr
  exact handleUpdateRoyaltiesNFTandSFT_spec hr

theorem updateRoyaltiesReceiver_spec {toAddress : Bytes} (hb : MarketBounds asset)
    (h : updateRoyaltiesReceiver P fc sender toAddress asset = .ok asset') :
    asset'.assetType = asset.assetType ∧ MarketBounds asset' := by
  simp only [updateRoyaltiesReceiver, bind_eq_ok, pure_eq_ok] at h
  obtain ⟨_, _, _, _, _, _, rfl⟩ := h
  refine ⟨rfl, fun htype r hr => ?_⟩
  cases hr
  cases hc : asset.royalties with
  | none =>
    exact ⟨show RoyaltiesData.zero.marketPercentage ≤ HundredPercent by decide,
      show 0 ≤ RoyaltiesData.zero.marketFixed.toInt by decide⟩
  | some c => exact hb htype c hc

theorem handleStopRoyaltiesChange_spec (hb : MarketBounds asset)
    (h : handleStopRoyaltiesChange sender asset = .ok asset') :
    asset'.assetType = asset.assetType ∧ MarketBounds asset' := by
  simp only [handleStopRoyaltiesChange, bind_eq_ok, pure_eq_ok] at h
  obtain ⟨_, _, _, _, rfl⟩ := h
  exact ⟨rfl, hb⟩

/-- **An accepted royalty trigger rewrites one asset**, keeps its type and keeps the royalties of
a collection within bounds. -/
theorem royaltyTrigger_spec {s s' : Chain} {assetID : Option Bytes} {trigger : RoyaltyTrigger}
    (hb : ∀ id a, s.kdas.lookup id = some a → MarketBounds a)
    (h : royaltyTrigger P fc s sender assetID trigger = .ok s') :
    ∃ id a a', s.kdas.lookup id = some a ∧ s' = s.setKDA id a' ∧ a'.assetType = a.assetType ∧
      MarketBounds a' := by
  simp only [royaltyTrigger, bind_eq_ok, withCode_eq_ok, orError_eq_ok, pure_eq_ok] at h
  obtain ⟨_, _, _, _, a, ha, a', ha', rfl⟩ := h
  refine ⟨_, a, a', ha, rfl, ?_⟩
  cases trigger with
  | UpdateRoyalties royalties => exact updateRoyalties_spec ha'
  | ChangeRoyaltiesReceiver toAddress => exact updateRoyaltiesReceiver_spec (hb _ a ha) ha'
  | StopRoyaltiesChange => exact handleStopRoyaltiesChange_spec (hb _ a ha) ha'

end Kda

end KleverGo
