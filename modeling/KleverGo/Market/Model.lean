import KleverGo.State.Chain

/-!
# The market KApp

`core/kapp/market/market.go`: listing an NFT (`sell`), buying or bidding (`buy`), closing an
order (`claim`, `cancelOrder`) and the marketplaces an order refers to.  Each call is the
sequence of checks and account updates of the source, in its order and with its result codes.

Receipts of successful calls are write-only and left out; the field of an error receipt is part
of the returned error.
-/

namespace KleverGo

/-- `transaction.BuyContract`, the fields a market purchase reads; `none` is `nil`. -/
structure BuyContract where
  id : Option Bytes
  currencyID : Option Bytes
  amount : Int64
  deriving DecidableEq, Repr

/-- `transaction.SellContract`; the market type is an open enumeration. -/
structure SellContract where
  marketType : Int32
  (marketplaceID assetID currencyID : Option Bytes)
  (price reservePrice endTime : Int64)
  deriving DecidableEq, Repr

structure ConfigMarketplaceContract where
  (marketplaceID name referralAddress : Option Bytes)
  referralPercentage : UInt32
  deriving DecidableEq, Repr

structure CreateMarketplaceContract where
  name : Option Bytes
  referralAddress : Option Bytes
  referralPercentage : UInt32
  deriving DecidableEq, Repr

namespace Market

variable (P : Platform) (fc : ForkController)

/-! ## Storage -/

variable (s : Chain)

/-- `GetMarketplace`: the empty marketplace for a `nil` identifier. -/
def getMarketplace (marketplaceID : Option Bytes) : Except Err Marketplace :=
  match marketplaceID with
  | none => .ok ⟨[], [], [], [], 0⟩
  | some id => orError (s.market.marketplaces.lookup id) .ErrNotFoundInKApp

def setMarketplace (marketplace : Marketplace) : Chain :=
  { s with market :=
      { s.market with marketplaces := s.market.marketplaces.insert marketplace.id marketplace } }

/-- `GetMarketOrder`; its callers never pass a `nil` identifier. -/
def getMarketOrder (orderID : Bytes) : Except Err MarketOrderData :=
  orError (s.market.orders.lookup orderID) .ErrNotFoundInKApp

variable (order : MarketOrderData)

def setMarketOrder : Chain :=
  { s with market := { s.market with orders := s.market.orders.insert order.id order } }

/-- `marketKapp.SubInternalKDA` followed by `AddInternalKDA` of the account of `address`: the
escrowed item leaves the KApp, with the codes and the receipt of the caller. -/
def releaseItem (collectionID assetID address : Bytes) (field : Option ErrField) :
    Except TxError Chain := do
  let (held, data) ← (subInternalKDA s.market.kdas collectionID assetID).mapError
    fun e => ⟨.BalanceError, e, field⟩
  let acc ← withCode .LoadAccountError (s.getExistingUser address)
  let kdas ← (addInternalKDA acc.kdas collectionID assetID data).mapError
    fun e => ⟨.AssetError, e, field⟩
  pure { s.setUser address { acc with kdas := kdas } with market := { s.market with kdas := held } }

/-! ## Asset controls -/

/-- `checkNotPaused`; a missing asset is not paused. -/
def checkNotPaused (asset : Option KDAData) : Except TxError Unit :=
  reject (asset.any (·.isPaused)) (fail .AssetPaused .ErrAssetIsPaused)

/-- `checkTransferAllowed`; a missing asset restricts nothing. -/
def checkTransferAllowed (asset : Option KDAData) (sender destination : Bytes) (amount : Int64) :
    Except TxError Unit :=
  reject (¬ (amount ≤ 0 ∨ asset.all (·.isTransferAllowed sender destination)))
    (fail .KDATransferNotAllowed .ErrKDATransferNotAllowed)

def loadUnpausedKDA (id : Option Bytes) : Except TxError (Option KDAData) := do
  let asset ← withReceipt .KAPPError .AssetNotFound (s.getKDA id)
  checkNotPaused asset
  pure asset

def addControlRefusedReceipt (e : TxError) : TxError :=
  match e.code with
  | .AssetPaused => { e with field := some .AssetPaused }
  | .KDATransferNotAllowed => { e with field := some .TransferNotAllowed }
  | _ => e

def isControlRefusal (code : ResultCode) : Bool :=
  code == .AssetPaused || code == .KDATransferNotAllowed

/-! ## Settlement amounts -/

/-- `settlementAmounts`: how a bid splits between the referral, the royalties and the owner. -/
structure SettlementAmounts where
  referralAddress : Bytes
  (referral royalties marketOwner : Int64)
  deriving DecidableEq, Repr

def referralBeneficiary : Except Err Bytes := do
  if order.referralSnapshotted then pure order.referralAddress
  else
    let marketplace ← getMarketplace s (decodedBytes order.marketplaceID)
    pure marketplace.referralAddress

def splitRoyaltyAmount (value percentage remaining : Int64) : Except TxError Int64 := do
  let splitToPay ← withCode .ParameterInvalid
    (computePercentageI64 P value percentage fc.enableSmartContracts)
  reject (fc.fixMarketBuyOverflow ∧ remaining < splitToPay)
    (failAt .ParameterInvalid .InvalidRoyalties .ErrInvalidValue)
  pure splitToPay

/-- The address the referral share goes to, resolved only when there is a share. -/
def referralAddressFor (referralAmount : Int64) : Except TxError Bytes :=
  if 0 < referralAmount then withCode .ParameterInvalid (referralBeneficiary s order)
  else pure []

/-- `computeSettlementAmounts`; it dereferences the royalties it is given. -/
def computeSettlementAmounts (royalties : Option RoyaltiesData) (bid : Int64) :
    Except TxError SettlementAmounts := do
  let referralAmount ← withCode .ParameterInvalid
    (computePercentageI64 P bid (toI64 order.referralPercentage) fc.enableSmartContracts)
  let referralAddress ← referralAddressFor s order referralAmount
  let referralAmount :=
    if fc.fixAuditChangesV4 ∧ referralAddress = [] then 0 else referralAmount
  let royalties ← orError royalties (fail .Fail .nilPointer)
  let royaltyPercentage :=
    if order.royaltySnapshotted then order.royaltyPercentage else royalties.marketPercentage
  let royaltiesAmount ← withCode .ParameterInvalid
    (computePercentageI64 P bid (toI64 royaltyPercentage) fc.enableSmartContracts)
  let marketOwnerAmount := bid - referralAmount - royaltiesAmount
  reject (fc.fixMarketBuyOverflow ∧ marketOwnerAmount < 0)
    (failAt .AmountInvalid .InvalidRoyalties .ErrInvalidValue)
  pure ⟨referralAddress, referralAmount, royaltiesAmount, marketOwnerAmount⟩

section

variable (royalties : RoyaltiesData) (currency : Option KDAData) (buyer : Bytes)

/-- One split of the loop of `checkSettlementControls`. -/
def checkSplit (value remaining : Int64) (key : Bytes) : Except TxError Int64 := do
  let splitAddress ← orError (hexDecode key) (fail .LoadAccountError .ErrInvalidHex)
  let percentage := (royalties.splitRoyalties.lookup key).elim 0 (·.percentMarketPercentage)
  let splitToPay ← splitRoyaltyAmount P fc value (toI64 percentage) remaining
  checkTransferAllowed currency buyer splitAddress splitToPay
  pure (remaining - splitToPay)

/-- The royalty legs of `checkSettlementControls`. -/
def checkRoyaltyLegs (amount : Int64) : Except TxError Unit := do
  let remaining ← (orderedKeys royalties.splitRoyalties true).foldlM
    (checkSplit P fc royalties currency buyer amount) amount
  checkTransferAllowed currency buyer royalties.address remaining

end

def checkSettlementControls (collection : Option KDAData) (royalties : RoyaltiesData)
    (currency : Option KDAData) (buyer : Bytes) (amounts : SettlementAmounts) :
    Except TxError Unit := do
  checkTransferAllowed collection order.ownerAddress buyer 1
  checkTransferAllowed currency buyer amounts.referralAddress amounts.referral
  if 0 < amounts.royalties then checkRoyaltyLegs P fc royalties currency buyer amounts.royalties
  checkTransferAllowed currency buyer order.ownerAddress amounts.marketOwner

def checkBidControls (currencyID : Bytes) (buyer : Bytes) (bid : Int64) : Except TxError Unit :=
  if !fc.fixAuditChangesV6 then pure ()
  else Except.mapError addControlRefusedReceipt do
    let currency ← loadUnpausedKDA s (some currencyID)
    let collection ← loadUnpausedKDA s (decodedBytes order.collectionID)
    let royalties := (collection.bind (·.royalties)).getD RoyaltiesData.zero
    let amounts ← computeSettlementAmounts P fc s order (some royalties) bid
    checkSettlementControls P fc order collection royalties currency buyer amounts

/-- `prepareSettlement`: the collection with its royalties, and the amounts to pay. -/
def prepareSettlement (currencyID : Option Bytes) (buyer : Bytes) :
    Except TxError (KDAData × RoyaltiesData × SettlementAmounts) := do
  let asset ← withCode .KAPPError (s.getKDA (decodedBytes order.collectionID))
  if fc.fixAuditChangesV6 then checkNotPaused asset
  let currency ← if fc.fixAuditChangesV6 then loadUnpausedKDA s currencyID else pure none
  let asset ← orError asset (fail .Fail .nilPointer)
  let amounts ← computeSettlementAmounts P fc s order asset.royalties order.currentBid
  let royalties := asset.royalties.getD RoyaltiesData.zero
  if fc.fixAuditChangesV6 then
    checkSettlementControls P fc order (some asset) royalties currency buyer amounts
  pure (asset, royalties, amounts)

/-! ## Payments of a settlement -/

def computeReferralAmount (referralAddress : Bytes) (referralAmount : Int64)
    (currencyID : Option Bytes) : Except TxError Chain :=
  if referralAmount ≤ 0 then pure s
  else s.creditLoaded referralAddress referralAmount currencyID

/-- `computeSplitRoyalties`: pays one split and returns what is left to pay. -/
def computeSplitRoyalties (address : Bytes) (currencyID : Option Bytes)
    (value percentage royaltiesToPay : Int64) : Except TxError (Chain × Int64) := do
  let decodedAddress ← orError (hexDecode address) (fail .LoadAccountError .ErrInvalidHex)
  let acc ← withCode .LoadAccountError (s.loadUser decodedAddress)
  let splitToPay ← splitRoyaltyAmount P fc value percentage royaltiesToPay
  let acc ← withCode .BalanceError (acc.addToBalance splitToPay currencyID)
  pure (s.setUser decodedAddress acc, royaltiesToPay - splitToPay)

/-- The loop over the splits of a royalty, each with its percentage. -/
def paySplits (splits : FMap Bytes RoyaltySplitData) (percentage : RoyaltySplitData → UInt32)
    (currencyID : Option Bytes) (value : Int64) (s : Chain) : Except TxError (Chain × Int64) :=
  (orderedKeys splits fc.fixAuditChangesV6).foldlM
    (fun st key => computeSplitRoyalties P fc st.1 key currencyID value
      (toI64 ((splits.lookup key).elim 0 percentage)) st.2)
    (s, value)

def computeRoyaltiesFixedDeposit (royalties : RoyaltiesData) : Except TxError Chain := do
  if order.royaltiesFixedDeposit ≤ 0 then pure s
  else
    let (s, toPay) ← paySplits P fc royalties.splitRoyalties (·.percentMarketFixed)
      (some KLVIdentifier) order.royaltiesFixedDeposit s
    if toPay ≤ 0 then pure s
    else s.creditLoaded royalties.address toPay (some KLVIdentifier)

/-- The receiver of the royalty remainder in `computeRoyaltiesAmount`. -/
def royaltyReceiver (asset : KDAData) (royalties : RoyaltiesData) :
    Except Err (Bytes × UserAccount) := do
  if fc.fixAuditChangesV6 then
    let acc ← s.loadUser royalties.address
    pure (royalties.address, acc)
  else if fc.kdaFpr then
    let acc ← s.getExistingUser royalties.address
    pure (royalties.address, acc)
  else
    let acc ← s.getExistingUser asset.ownerAddress
    pure (asset.ownerAddress, acc)

def computeRoyaltiesAmount (asset : KDAData) (royalties : RoyaltiesData) (currencyID : Option Bytes)
    (royaltiesAmount : Int64) : Except TxError Chain := do
  if royaltiesAmount ≤ 0 then pure s
  else
    let (s, toPay) ← paySplits P fc royalties.splitRoyalties (·.percentMarketPercentage)
      currencyID royaltiesAmount s
    if toPay ≤ 0 then pure s
    else
      let (address, acc) ← withCode .LoadAccountError (royaltyReceiver fc s asset royalties)
      let acc ← withCode .BalanceError (acc.addToBalance toPay currencyID)
      pure (s.setUser address acc)

def computeMarketOwnerAmount (currencyID : Option Bytes) (marketOwnerAmount : Int64) :
    Except TxError Chain :=
  if marketOwnerAmount ≤ 0 then pure s
  else s.creditLoaded order.ownerAddress marketOwnerAmount currencyID

/-- `executeBuyMarket` for the account of `bidder` -/
def executeBuyMarket (bidder : Bytes) (order : MarketOrderData) (currencyID : Option Bytes) :
    Except TxError Chain := do
  let (asset, royalties, amounts) ←
    (prepareSettlement P fc s order currencyID bidder).mapError addControlRefusedReceipt
  let s ← computeReferralAmount s amounts.referralAddress amounts.referral currencyID
  let s ← computeRoyaltiesFixedDeposit P fc s order royalties
  let s ← computeRoyaltiesAmount P fc s asset royalties currencyID amounts.royalties
  let s ← computeMarketOwnerAmount s order currencyID amounts.marketOwner
  let s ← releaseItem s order.collectionID order.assetID bidder none
  pure (setMarketOrder s order)

/-! ## Calls -/

/-- Whether a purchase settles at once, or the refusal of its amount: the switch of `Buy`. -/
def buySettles (amount : Int64) : Except TxError Bool :=
  match order.marketType with
  | .BuyItNow => do
    reject (amount < order.price) (failAt .AmountInvalid .PriceBelowMinimum .ErrInvalidValue)
    pure true
  | .Auction => do
    reject (amount < order.reservePrice)
      (failAt .AmountInvalid .PriceBelowMinimum .ErrInvalidValue)
    pure (0 < order.price ∧ order.price ≤ amount)

/-- The refund of the previous bidder in `Buy`. -/
def refundLastBidder (currencyID : Bytes) : Except TxError Chain := do
  if order.currentBidder = [] then pure s
  else
    let acc ← withCode .LoadAccountError (s.getExistingUser order.currentBidder)
    let acc ← withCode .BalanceError (acc.addToBalance order.currentBid (some currencyID))
    pure (s.setUser order.currentBidder acc)

variable (ctx : KappContext)

def buy (s : Chain) (sender : Bytes) (tc : BuyContract) : Except TxError Chain := do
  let orderID ← orError tc.id (failAt .ParameterInvalid .OrderIDMissing .ErrInvalidValue)
  let currencyID := tc.currencyID.getD KLVIdentifier
  reject (tc.amount ≤ 0) (failAt .AmountInvalid .InvalidAmount .ErrInvalidValue)
  let order ← withReceipt .ParameterInvalid .OrderNotFound (getMarketOrder s orderID)
  reject (fc.fixAuditChangesV3 ∧ order.isClaimed)
    (failAt .ParameterInvalid .InvalidOrder .ErrInvalidValue)
  reject (order.currencyID ≠ currencyID)
    (failAt .ParameterInvalid .OrderCurrencyInvalid .ErrInvalidValue)
  reject (order.endTime < ctx.timestamp)
    (failAt .ParameterInvalid .OrderExpired .ErrInvalidValue)
  reject (tc.amount ≤ order.currentBid) (failAt .AmountInvalid .BidTooLow .ErrInvalidValue)
  let settles ← buySettles order tc.amount
  checkBidControls P fc s order currencyID sender tc.amount
  let s ← refundLastBidder s order currencyID
  let bidderAcc ← withCode .LoadAccountError (s.getExistingUser sender)
  let bidderAcc ← withReceipt .BalanceError .InsufficientFunds
    (bidderAcc.subFromBalance tc.amount (some currencyID))
  let s := s.setUser sender bidderAcc
  let order := { order with currentBid := tc.amount, currentBidder := sender }
  if settles then
    executeBuyMarket P fc s sender { order with endTime := ctx.timestamp, isClaimed := true }
      (some currencyID)
  else pure (setMarketOrder s order)

/-- The refund of the current bidder in `returnOrderToOwners`. -/
def refundBidder : Except TxError Chain := do
  if order.currentBidder = [] then pure s
  else
    let acc ← withReceipt .LoadAccountError .InvalidAddress (s.getExistingUser order.currentBidder)
    let acc ← withReceipt .BalanceError .MarketplaceError
      (acc.addToBalance order.currentBid (decodedBytes order.currencyID))
    pure (s.setUser order.currentBidder acc)

/-- The refund of the fixed deposit in `returnOrderToOwners` and `CancelOrder`. -/
def refundDeposit : Except TxError Chain := do
  if order.royaltiesFixedDeposit ≤ 0 then pure s
  else
    let acc ← withReceipt .LoadAccountError .InvalidAddress (s.getExistingUser order.ownerAddress)
    let acc ← withReceipt .BalanceError .MarketplaceError
      (acc.addToBalance order.royaltiesFixedDeposit (some KLVIdentifier))
    pure (s.setUser order.ownerAddress acc)

def returnOrderToOwners : Except TxError Chain := do
  let _ ← withReceipt .LoadAccountError .InvalidAddress (s.getExistingUser order.ownerAddress)
  let s ← releaseItem s order.collectionID order.assetID order.ownerAddress
    (some .MarketplaceError)
  let s ← refundDeposit s order
  refundBidder s order

/-- Whether an expired order with a met reserve settles: under `FixAuditChangesV6` a control
refusal unwinds it, any other refusal fails the claim. -/
def expiredSettles : Except TxError Bool :=
  if !fc.fixAuditChangesV6 then pure true
  else
    match prepareSettlement P fc s order (decodedBytes order.currencyID) order.currentBidder with
    | .ok _ => pure true
    | .error e => if isControlRefusal e.code then pure false else throw e

/-- Whether the bid of an order meets a reserve price it has. -/
def reserveMet : Prop :=
  0 < order.reservePrice ∧ order.reservePrice ≤ order.currentBid

instance (order : MarketOrderData) : Decidable (reserveMet order) :=
  inferInstanceAs (Decidable (_ ∧ _))

/-- `Claim`, whose identifier is the order's -/
def claim (s : Chain) (sender : Bytes) (id : Option Bytes) : Except TxError Chain := do
  let orderID ← orError id (failAt .ParameterInvalid .OrderIDMissing .ErrInvalidValue)
  let order ← withReceipt .ParameterInvalid .OrderNotFound (getMarketOrder s orderID)
  reject order.isClaimed (failAt .ParameterInvalid .ClaimNotAvailable .ErrInvalidValue)
  reject (sender ≠ order.ownerAddress ∧ sender ≠ order.currentBidder)
    (failAt .ParameterInvalid .InvalidPermission .ErrInvalidValue)
  let order := { order with isClaimed := true }
  if ctx.timestamp ≤ order.endTime then
    reject (¬ (sender = order.ownerAddress ∧ reserveMet order))
      (failAt .ParameterInvalid .ClaimNotAvailable .ErrInvalidValue)
    let _ ← withReceipt .LoadAccountError .InvalidAddress (s.getExistingUser order.currentBidder)
    executeBuyMarket P fc s order.currentBidder order (decodedBytes order.currencyID)
  else if reserveMet order then
    let _ ← withReceipt .LoadAccountError .InvalidAddress (s.getExistingUser order.currentBidder)
    let settles ← expiredSettles P fc s order
    if settles then
      executeBuyMarket P fc s order.currentBidder order (decodedBytes order.currencyID)
    else
      let s ← returnOrderToOwners s order
      pure (setMarketOrder s order)
  else
    let s ← returnOrderToOwners s order
    pure (setMarketOrder s order)

/-- The refund of the current bid in `CancelOrder`. -/
def refundCancelledBid (sender : Bytes) (order : MarketOrderData) :
    Except TxError (Chain × MarketOrderData) := do
  if order.currentBidder = [] ∨ order.currentBid ≤ 0 then pure (s, order)
  else
    let address := if fc.kdaFpr then order.currentBidder else sender
    let acc ← withReceipt .LoadAccountError .InvalidAddress (s.getExistingUser address)
    let acc ← withReceipt .BalanceError .MarketplaceError
      (acc.addToBalance order.currentBid (decodedBytes order.currencyID))
    pure (s.setUser address acc, { order with currentBidder := [], currentBid := 0 })

def cancelOrder (s : Chain) (sender : Bytes) (orderID : Option Bytes) : Except TxError Chain := do
  let orderID ← orError orderID (failAt .ParameterInvalid .OrderIDMissing .ErrInvalidValue)
  let order ← withReceipt .ParameterInvalid .OrderNotFound (getMarketOrder s orderID)
  reject order.isClaimed (failAt .ParameterInvalid .InvalidOrder .ErrInvalidValue)
  reject (order.ownerAddress ≠ sender)
    (failAt .ParameterInvalid .InvalidPermission .ErrInvalidValue)
  reject (order.endTime ≤ ctx.timestamp)
    (failAt .ParameterInvalid .OrderExpired .ErrInvalidValue)
  let _ ← withReceipt .LoadAccountError .InvalidAddress (s.getExistingUser sender)
  let s ← refundDeposit s order
  let order :=
    if 0 < order.royaltiesFixedDeposit then { order with royaltiesFixedDeposit := 0 } else order
  let (s, order) ← refundCancelledBid fc s sender order
  let order := { order with endTime := ctx.timestamp, isClaimed := true }
  let s ← releaseItem s order.collectionID order.assetID sender (some .MarketplaceError)
  pure (setMarketOrder s order)

/-- `MarketOrderData_EnumMarketType(t)` for the values the enumeration names -/
def marketTypeOf (t : Int32) : Option MarketType :=
  if t = 0 then some .BuyItNow else if t = 1 then some .Auction else none

/-- The identifier `Sell` and `CreateMarketplace` compute for the running contract. -/
def contractMarketID (sender : Bytes) : Bytes :=
  toMarketID P.hash ctx.randSeed sender ctx.txNonce ctx.contractID marketKeyLength

/-- The reserve price a listing stores: the switch on the market type in `Sell`. -/
def listingReservePrice (marketType : MarketType) (tc : SellContract) : Except TxError Int64 :=
  match marketType with
  | .BuyItNow => do
    reject (tc.price = 0) (failAt .AmountInvalid .InvalidPrice .ErrInvalidValue)
    pure 0
  | .Auction => pure tc.reservePrice

/-- The order `Sell` stores. -/
def listedOrder (sender : Bytes) (tc : SellContract) (orderID : Bytes) (marketplace : Marketplace)
    (marketType : MarketType) (collectionID assetID : Bytes) (reservePrice : Int64)
    (royalties : RoyaltiesData) : MarketOrderData where
  id := orderID
  marketplaceID := marketplace.id
  marketType := marketType
  ownerAddress := sender
  assetID := assetID
  collectionID := collectionID
  currencyID := tc.currencyID.getD KLVIdentifier
  price := tc.price
  reservePrice := reservePrice
  currentBidder := []
  currentBid := 0
  royaltiesFixedDeposit := royalties.marketFixed
  referralPercentage := marketplace.referralPercentage
  startTime := ctx.timestamp
  endTime := tc.endTime
  isClaimed := false
  royaltyPercentage := if fc.fixAuditChangesV3 then royalties.marketPercentage else 0
  royaltySnapshotted := fc.fixAuditChangesV3
  referralAddress := if fc.fixAuditChangesV4 then marketplace.referralAddress else []
  referralSnapshotted := fc.fixAuditChangesV4

/-- The fixed royalty deposit taken in `Sell`. -/
def takeDeposit (sender : Bytes) (marketFixed : Int64) : Except TxError Chain := do
  if marketFixed ≤ 0 then pure s
  else
    let acc ← withReceipt .LoadAccountError .InvalidAddress (s.getExistingUser sender)
    let acc ← withReceipt .BalanceError .InsufficientFunds
      (acc.subFromBalance marketFixed (some KLVIdentifier))
    pure (s.setUser sender acc)

/-- The item leaves the seller's account for the KApp's. -/
def escrowItem (sender collectionID assetID : Bytes) : Except TxError Chain := do
  let acc ← withReceipt .LoadAccountError .InvalidAddress (s.getExistingUser sender)
  let (kdas, data) ← withReceipt .BalanceError .InsufficientFunds
    (subInternalKDA acc.kdas collectionID assetID)
  let held ← withReceipt .AssetError .MarketplaceError
    (addInternalKDA s.market.kdas collectionID assetID data)
  pure { s.setUser sender { acc with kdas := kdas } with market := { s.market with kdas := held } }

/-- The conflict test of `Sell` and `CreateMarketplace`: it refuses a failed read, so an entry
that is found passes it. -/
def checkConflict {α : Type} (found : Except Err α) (field : ErrField) : Except TxError Unit :=
  match found with
  | .ok _ => pure ()
  | .error e => reject (e ≠ .ErrNotFoundInKApp) (failAt .KeyConflict field e)

/-- The two parts of the identifier of an item. -/
def splitItemID (fullAssetID : Bytes) : Except TxError (Bytes × Bytes) :=
  match splitSp fullAssetID with
  | [collectionID, assetID] => pure (collectionID, assetID)
  | _ => throw (failAt .AssetTypeInvalid .InvalidAssetType .ErrInvalidArgument)

def sell (s : Chain) (sender : Bytes) (tc : SellContract) : Except TxError Chain := do
  let fullAssetID ← orError tc.assetID (failAt .AssetError .InvalidAssetID .ErrInvalidValue)
  reject (tc.marketplaceID = none) (failAt .ParameterInvalid .MarketplaceError .ErrInvalidValue)
  let (collectionID, assetID) ← splitItemID fullAssetID
  reject (tc.price < 0 ∨ tc.reservePrice < 0)
    (failAt .ParameterInvalid .InvalidPrice .ErrInvalidValue)
  reject (tc.endTime ≤ ctx.timestamp ∨ P.oneYearAfter ctx.timestamp < tc.endTime)
    (failAt .ParameterInvalid .OrderExpired .ErrInvalidValue)
  let marketType ← orError (marketTypeOf tc.marketType)
    (failAt .ParameterInvalid .InvalidMarketType .ErrInvalidValue)
  let asset ← withReceipt .KAPPError .AssetNotFound
    (orError (s.kdas.lookup collectionID) .ErrAssetNotFound)
  reject (asset.assetType ≠ .NonFungible)
    (failAt .AssetTypeInvalid .InvalidAssetType .ErrInvalidValue)
  reject (fc.fixAuditChangesV6 ∧ asset.isPaused)
    (failAt .AssetPaused .AssetPaused .ErrAssetIsPaused)
  let marketplace ← withReceipt .ParameterInvalid .MarketplaceError
    (getMarketplace s tc.marketplaceID)
  let royalties ← orError asset.royalties (fail .Fail .nilPointer)
  reject (HundredPercent < royalties.marketPercentage + marketplace.referralPercentage)
    (failAt .ParameterInvalid .InvalidRoyalties .ErrInvalidValue)
  let orderID := contractMarketID P ctx sender
  checkConflict (getMarketOrder s orderID) .InvalidOrder
  let reservePrice ← listingReservePrice marketType tc
  let s ← escrowItem s sender collectionID assetID
  let s ← takeDeposit s sender royalties.marketFixed
  pure (setMarketOrder s (listedOrder fc ctx sender tc orderID marketplace marketType collectionID
    assetID reservePrice royalties))

def createMarketplace (s : Chain) (sender : Bytes) (tc : CreateMarketplaceContract) :
    Except TxError Chain := do
  let name ← orError tc.name (failAt .ParameterInvalid .InvalidName .ErrInvalidValue)
  reject (¬ P.utf8Valid name ∨ MaxNameSize < name.length)
    (failAt .ParameterInvalid .InvalidName .ErrInvalidValue)
  let given := tc.referralAddress.getD []
  reject (given ≠ [] ∧ given.length ≠ P.addressLen)
    (failAt .ParameterInvalid .InvalidToAddress .ErrInvalidValue)
  reject (HundredPercent < tc.referralPercentage)
    (failAt .ParameterInvalid .InvalidRoyalties .ErrInvalidValue)
  let marketplaceID := contractMarketID P ctx sender
  checkConflict (getMarketplace s (some marketplaceID)) .MarketplaceError
  pure (setMarketplace s
    ⟨marketplaceID, name, sender, if given = [] then sender else given, tc.referralPercentage⟩)

/-- The referral address `ConfigMarketplace` stores. -/
def configuredReferral (marketplace : Marketplace) (tc : ConfigMarketplaceContract) :
    Except TxError Bytes := do
  let given := tc.referralAddress.getD []
  if fc.fixAuditChangesV4 then
    let address := if given = [] then marketplace.referralAddress else given
    reject (0 < tc.referralPercentage ∧ address = [])
      (failAt .ParameterInvalid .InvalidAddress .ErrInvalidValue)
    pure address
  else pure given

def configMarketplace (sender : Bytes) (tc : ConfigMarketplaceContract) : Except TxError Chain := do
  reject (tc.referralAddress.any fun a => a.length != P.addressLen)
    (failAt .ParameterInvalid .InvalidAddress .ErrInvalidValue)
  reject (HundredPercent < tc.referralPercentage)
    (failAt .ParameterInvalid .InvalidRoyalties .ErrInvalidValue)
  let marketplace ← withReceipt .ParameterInvalid .MarketplaceError
    (getMarketplace s tc.marketplaceID)
  reject (marketplace.ownerAddress ≠ sender)
    (failAt .ParameterInvalid .InvalidPermission .ErrInvalidValue)
  reject (tc.name.any fun n => !P.utf8Valid n || decide (MaxNameSize < n.length))
    (failAt .ParameterInvalid .InvalidName .ErrInvalidValue)
  let referralAddress ← configuredReferral fc marketplace tc
  pure (setMarketplace s
    { marketplace with
      name := tc.name.getD marketplace.name
      referralAddress := referralAddress
      referralPercentage := tc.referralPercentage })

end Market

end KleverGo
