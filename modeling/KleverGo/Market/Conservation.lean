import KleverGo.Market.Invariant

/-!
# Conservation of value in the market

`value s x` is what the users own of asset `x` together with what the unclaimed orders escrow in
it.  Every successful market call keeps it, and keeps the escrowed items in step with the
unclaimed orders, so both facts hold along every run that starts without orders
(`market_run_conserves`).

The runs interleave listings, purchases, bids, claims, cancellations and marketplace changes
with the royalty updates the KDA KApp accepts.  No order of the timestamps is assumed.
-/

namespace KleverGo.Market

open Chain

open UserAccount (assetOf)

variable {P : Platform}

/-! ## Value -/

/-- What an order escrows of each asset: its fixed deposit in KLV and its bid in its currency. -/
def escrowed (o : MarketOrderData) : Bytes → Int :=
  if o.isClaimed then 0
  else entry KLVIdentifier o.royaltiesFixedDeposit.toInt + entry o.currency o.currentBid.toInt

/-- The escrow of all stored orders. -/
def escrowTotal (s : Chain) (x : Bytes) : Int := s.market.orders.sumBy fun _ o => escrowed o x

/-- What users own and orders escrow of an asset. -/
def value (s : Chain) (x : Bytes) : Int := s.total x + escrowTotal s x

variable {o : MarketOrderData}

theorem escrowed_open (h : o.isClaimed = false) :
    escrowed o =
      entry KLVIdentifier o.royaltiesFixedDeposit.toInt + entry o.currency o.currentBid.toInt := by
  simp [escrowed, h]

theorem escrowed_claimed (h : o.isClaimed = true) : escrowed o = 0 := by
  simp [escrowed, h]

variable {s s1 : Chain} {o' : MarketOrderData}

/-- Storing an order exchanges the escrow of the one it replaces for its own. -/
theorem escrowTotal_setMarketOrder (horders : s1.market.orders = s.market.orders)
    (ho : s.market.orders.lookup o'.id = some o) (x : Bytes) :
    escrowTotal (setMarketOrder s1 o') x = escrowTotal s x - escrowed o x + escrowed o' x := by
  have h := FMap.sumBy_insert (fun _ o => escrowed o x) s.market.orders o'.id o'
  rw [ho, Option.elim_some] at h
  simp only [escrowTotal, setMarketOrder, horders]
  omega

variable {id x : Bytes} {xs : Set Bytes} {δ : Bytes → Int}

/-- Closing an order conserves value when it pays out what the order escrowed. -/
theorem value_close {receiver key : Bytes} (ho : Live s id o) (hid : o'.id = id)
    (hclosed : o'.isClaimed = true) (hr : Releases key receiver xs δ s s1) (hx : sp ∉ x) :
    value (setMarketOrder s1 o') x = value s x + δ x - escrowed o x := by
  have hesc := escrowTotal_setMarketOrder hr.orders (hid ▸ ho.1) x
  have htot := hr.total x hx
  rw [escrowed_claimed hclosed] at hesc
  simp only [value, Pi.zero_apply] at hesc ⊢
  change s1.total x + _ = _
  omega

/-- What a market call keeps: the invariant, the value of every asset and, apart from the
identifiers in `new`, the set of identifiers in use. -/
structure Conserves (new : List Bytes) (s s' : Chain) : Prop where
  inv : MarketInv s'
  value : ∀ x, sp ∉ x → value s' x = value s x
  known : ∀ id, id ∉ new → s.market.orders.lookup id = none → s'.market.orders.lookup id = none

theorem known_setMarketOrder (horders : s1.market.orders = s.market.orders) (ho : Live s id o)
    (hid : o'.id = id) :
    ∀ id2, s.market.orders.lookup id2 = none →
      (setMarketOrder s1 o').market.orders.lookup id2 = none := by
  intro id2 h2
  simp only [setMarketOrder, FMap.lookup_insert_eq, horders, hid]
  split
  · rename_i he
    rw [he, ho.1] at h2
    cases h2
  · exact h2

/-! ## The calls -/

theorem getMarketOrder_live (h : getMarketOrder s id = .ok o) (hopen : ¬ o.isClaimed = true) :
    Live s id o := by
  simp only [getMarketOrder, orError_eq_ok] at h
  exact ⟨h, by simpa using hopen⟩

theorem LiveOrder.payable_refundAssets (hi : MarketInv s) (h : LiveOrder s o) :
    ∀ x ∈ refundAssets o, Payable s x := by
  rintro x (rfl | ⟨hb, rfl⟩)
  · exact hi.payable_klv
  · exact h.payable hb

variable {s' : Chain}

/-- Settling a stored, unclaimed order at its own bid or at a new one. -/
theorem settle_spec {bidder : Bytes} {currencyID : Option Bytes} (hi : MarketInv s)
    (ho : Live s id o) (hid : o'.id = id)
    (hkey : o'.collectionID = o.collectionID ∧ o'.assetID = o.assetID)
    (hdep : o'.royaltiesFixedDeposit = o.royaltiesFixedDeposit)
    (href : o'.referralPercentage = o.referralPercentage) (hbid : 0 ≤ o'.currentBid.toInt)
    (hclosed : o'.isClaimed = true) (hcur : Payable s (assetOf currencyID))
    (h : executeBuyMarket P .allActive s bidder o' currencyID = .ok s') :
    MarketInv s' ∧ (∀ id2, s.market.orders.lookup id2 = none →
        s'.market.orders.lookup id2 = none) ∧
      ∀ x, sp ∉ x → value s' x = value s x +
        (entry (assetOf currencyID) o'.currentBid.toInt +
          entry KLVIdentifier o.royaltiesFixedDeposit.toInt) x - escrowed o x := by
  have hlo := hi.live id o ho
  obtain ⟨s1, rfl, hr⟩ := executeBuyMarket_spec hbid (hdep ▸ hlo.deposit) (href ▸ hlo.referral)
    (hkey.2 ▸ hlo.item.2) h
  have hitem : o'.itemKey = o.itemKey := by simp only [MarketOrderData.itemKey, hkey]
  rw [hitem, hdep] at hr
  refine ⟨hi.close ho hid hclosed ?_ hr, known_setMarketOrder hr.orders ho hid,
    fun x hx => value_close ho hid hclosed hr hx⟩
  rintro x (rfl | rfl)
  · exact hcur
  · exact hi.payable_klv

/-- The escrow of an unclaimed order is what closing it has to pay. -/
theorem escrowed_apply (h : o.isClaimed = false) (x : Bytes) :
    (entry o.currency o.currentBid.toInt +
      entry KLVIdentifier o.royaltiesFixedDeposit.toInt) x = escrowed o x := by
  rw [escrowed_open h, add_comm]

theorem return_spec (hi : MarketInv s) (ho : Live s id o)
    (h : returnOrderToOwners s { o with isClaimed := true } = .ok s1) :
    Conserves [] s (setMarketOrder s1 { o with isClaimed := true }) := by
  have hlo := hi.live id o ho
  have hstored : ({ o with isClaimed := true } : MarketOrderData).id = id := hi.stored id o ho.1
  have hr : Releases o.itemKey o.ownerAddress (refundAssets o)
      (entry o.currency o.currentBid.toInt +
        entry KLVIdentifier o.royaltiesFixedDeposit.toInt) s s1 :=
    returnOrderToOwners_spec hlo.bidless hlo.deposit hlo.item.2 h
  refine ⟨hi.close ho hstored rfl (hlo.payable_refundAssets hi) hr, fun x hx => ?_,
    fun id2 _ => known_setMarketOrder hr.orders ho hstored id2⟩
  have hv := value_close ho hstored rfl hr hx
  rw [escrowed_apply ho.2] at hv
  omega

variable {ctx : KappContext} {sender : Bytes} {orderID : Option Bytes}

theorem claim_spec (hi : MarketInv s) (h : claim P .allActive ctx s sender orderID = .ok s') :
    Conserves [] s s' := by
  simp only [claim, bind_eq_ok, withReceipt_eq_ok, reject_eq_ok, orError_eq_ok] at h
  obtain ⟨id, -, o, horder, _, hopen, _, -, h⟩ := h
  have ho := getMarketOrder_live horder hopen
  have hlo := hi.live id o ho
  have hstored : ({ o with isClaimed := true } : MarketOrderData).id = id := hi.stored id o ho.1
  -- both settling branches have loaded the account of the bidder
  have hsettle : ∀ {acc : UserAccount}, s.getExistingUser o.currentBidder = .ok acc →
      executeBuyMarket P .allActive s o.currentBidder { o with isClaimed := true }
        (decodedBytes o.currencyID) = .ok s' →
      Conserves [] s s' := by
    intro acc hacc hexec
    obtain ⟨hinv, hknown, hval⟩ := settle_spec hi ho hstored ⟨rfl, rfl⟩ rfl rfl hlo.bid rfl
      (hlo.payable (getExistingUser_spec hacc).1) hexec
    refine ⟨hinv, fun x hx => ?_, fun id2 _ => hknown id2⟩
    have hv : value s' x = value s x + (entry o.currency o.currentBid.toInt +
        entry KLVIdentifier o.royaltiesFixedDeposit.toInt) x - escrowed o x := hval x hx
    rw [escrowed_apply ho.2] at hv
    omega
  split at h
  · simp only [bind_eq_ok, withReceipt_eq_ok, reject_eq_ok] at h
    obtain ⟨_, -, acc, hacc, hexec⟩ := h
    exact hsettle hacc hexec
  split at h
  · simp only [bind_eq_ok, withReceipt_eq_ok] at h
    obtain ⟨acc, hacc, settles, -, h⟩ := h
    split at h
    · exact hsettle hacc h
    · simp only [bind_eq_ok, pure_eq_ok] at h
      obtain ⟨s1, hret, rfl⟩ := h
      exact return_spec hi ho hret
  · simp only [bind_eq_ok, pure_eq_ok] at h
    obtain ⟨s1, hret, rfl⟩ := h
    exact return_spec hi ho hret

theorem cancelOrder_spec (hi : MarketInv s)
    (h : cancelOrder .allActive ctx s sender orderID = .ok s') :
    Conserves [] s s' := by
  simp only [cancelOrder, bind_eq_ok, withReceipt_eq_ok, reject_eq_ok, orError_eq_ok,
    pure_eq_ok] at h
  obtain ⟨id, -, o, horder, _, hopen, _, -, _, -, _, -, s1, hdeposit, ⟨s2, o2⟩, hbid, s3, hitem,
    rfl⟩ := h
  have ho := getMarketOrder_live horder hopen
  have hlo := hi.live id o ho
  -- clearing the deposit field changes nothing else of the order
  have hcleared : ∃ d, (if 0 < o.royaltiesFixedDeposit then { o with royaltiesFixedDeposit := 0 }
      else o) = { o with royaltiesFixedDeposit := d } := by
    split
    · exact ⟨0, rfl⟩
    · exact ⟨o.royaltiesFixedDeposit, rfl⟩
  obtain ⟨d, hd⟩ := hcleared
  rw [hd] at hbid
  obtain ⟨hpaid, hid, hcoll, hasset⟩ := refundCancelledBid_spec
    (by exact hlo.bidless) (by exact hlo.bid) hbid
  have hnonce : isItemNonce o2.assetID := by rw [hasset]; exact hlo.item.2
  have hpays := (refundDeposit_spec hlo.deposit hdeposit).trans hpaid
  have hrel := Releases.after_pays hpays (releaseItem_spec (refundAssets o) hnonce hitem)
  have hkey : toKDAKey o2.collectionID o2.assetID = o.itemKey := by rw [hcoll, hasset]; rfl
  have hδ : entry KLVIdentifier o.royaltiesFixedDeposit.toInt +
      entry o.currency o.currentBid.toInt + 0 = escrowed o := by
    rw [escrowed_open ho.2, add_zero]
  change Releases _ _ _ (entry KLVIdentifier o.royaltiesFixedDeposit.toInt +
      entry o.currency o.currentBid.toInt + 0) s s3 at hrel
  rw [hkey, hδ] at hrel
  have hstored : ({ o2 with endTime := ctx.timestamp, isClaimed := true } : MarketOrderData).id =
      id := hid.trans (hi.stored id o ho.1)
  refine ⟨hi.close ho hstored rfl (hlo.payable_refundAssets hi) hrel, fun x hx => ?_,
    fun id2 _ => known_setMarketOrder hrel.orders ho hstored id2⟩
  rw [value_close ho hstored rfl hrel hx]
  omega

variable {buyer : Bytes} {bid : Int64}

/-- The bid controls load the currency, so it is a registered asset. -/
theorem checkBidControls_currency {currencyID : Bytes}
    (h : checkBidControls P .allActive s o currencyID buyer bid = .ok ()) :
    ∃ a, s.kdas.lookup currencyID = some a := by
  simp only [checkBidControls, ForkController.allActive, Bool.not_true, Bool.false_eq_true,
    if_false, mapError_eq_ok, bind_eq_ok, loadUnpausedKDA, withReceipt_eq_ok] at h
  obtain ⟨_, ⟨asset, hasset, -⟩, -⟩ := h
  simp only [getKDA] at hasset
  cases hl : s.kdas.lookup currencyID with
  | none => simp [hl, orError] at hasset
  | some a => exact ⟨a, rfl⟩

theorem subFromBalance_absent {a a' : UserAccount} {value : Int64} (hx : x ≠ KLVIdentifier)
    (hrec : a.kdas.lookup (toKDAKey x []) = none) (hv : 0 < value.toInt) :
    a.subFromBalance value (some x) ≠ .ok a' := by
  intro h
  simp only [UserAccount.subFromBalance, UserAccount.changeBalance, UserAccount.getBalance,
    UserAccount.assetOf, Option.getD_some, if_neg hx, bind_eq_ok, reject_eq_ok,
    UserAccount.getUserKDA, hrec, Option.getD_none] at h
  obtain ⟨_, -, _, hn, -⟩ := h
  rw [Amount.not_neg_iff] at hn
  have hsub : (UserKDA.fresh.balance - value).toInt = 0 - value.toInt := by
    exact Amount.toInt_sub (by decide) hv.le
  omega

/-- The currency a bid is paid in is payable: it is registered, and the balance of a
collection is nobody's to spend. -/
theorem bid_payable {amount : Int64} {acc acc' : UserAccount} (hi : MarketInv s)
    (hlo : LiveOrder s o) (hctl : checkBidControls P .allActive s o o.currencyID buyer bid = .ok ())
    (hrefund : refundLastBidder s o o.currencyID = .ok s1)
    (hacc : s1.getExistingUser sender = .ok acc) (hv : 0 < amount.toInt)
    (hsub : acc.subFromBalance amount (some o.currencyID) = .ok acc') :
    o.currencyID ≠ [] ∧ Payable s o.currencyID := by
  obtain ⟨a, ha⟩ := checkBidControls_currency hctl
  obtain ⟨hne, hsep, -⟩ := hi.assets _ a ha
  by_cases hb : o.currentBidder = []
  · refine ⟨hne, hsep, fun hcoll => ?_⟩
    simp only [refundLastBidder, if_pos hb, pure_eq_ok] at hrefund
    subst hrefund
    have hrec := hi.items _ hcoll sender
    rw [Chain.record, (getExistingUser_spec hacc).2, Option.bind_some] at hrec
    exact subFromBalance_absent (fun he => hi.klv (he ▸ hcoll)) hrec hv hsub
  · exact hlo.currency hb

/-- Replacing an unclaimed order by an unclaimed one exchanges their escrows. -/
theorem value_rebid (ho : Live s id o) (hid : o'.id = id) (hopen : o'.isClaimed = false)
    (x : Bytes) :
    value (setMarketOrder s o') x = value s x - escrowed o x +
      (entry KLVIdentifier o'.royaltiesFixedDeposit.toInt +
        entry o'.currency o'.currentBid.toInt) x := by
  have hsum := escrowTotal_setMarketOrder rfl (hid ▸ ho.1) x
  rw [escrowed_open hopen] at hsum
  simp only [value]
  change s.total x + _ = _
  omega

theorem buy_spec {tc : BuyContract} (hi : MarketInv s)
    (h : buy P .allActive ctx s sender tc = .ok s') :
    Conserves [] s s' := by
  simp only [buy, bind_eq_ok, withReceipt_eq_ok, withCode_eq_ok, reject_eq_ok, orError_eq_ok] at h
  obtain ⟨id, -, _, hamount, o, horder, _, hopen, _, hcur, _, -, _, -, settles, -, _, hctl, s1,
    hrefund, acc, hacc, acc', hsub, h⟩ := h
  have hopen : ¬ o.isClaimed = true := fun hc => hopen ⟨rfl, hc⟩
  have hcur : tc.currencyID.getD KLVIdentifier = o.currencyID := (not_not.1 hcur).symm
  have hv : 0 < tc.amount.toInt := by
    rw [Amount.not_pos_iff] at hamount
    omega
  rw [hcur] at hctl hrefund hsub h
  have ho := getMarketOrder_live horder hopen
  have hlo := hi.live id o ho
  have hstored := hi.stored id o ho.1
  obtain ⟨hne, hpay⟩ := bid_payable hi hlo hctl hrefund hacc hv hsub
  have hrefunded := refundLastBidder_spec hlo.bidless hrefund
  have hpaid : Pays {o.currencyID} (entry o.currencyID (-tc.amount.toInt)) s1
      (s1.setUser sender acc') :=
    pays_subFromBalance (hrefunded.solvent hi.solvent) (by exact hpay.1) hacc hsub
  have hpays := hrefunded.trans hpaid
  -- the state in which the new bid is in escrow but not yet recorded
  obtain ⟨s2, hs2⟩ : ∃ s2, s2 = s1.setUser sender acc' := ⟨_, rfl⟩
  rw [← hs2] at hpays h
  have hi2 := hi.pays hpays (by rintro x rfl; exact hpay)
  have ho2 : Live s2 id o := by rwa [Live, hpays.market]
  have hlo2 := hlo.congr hpays.kdas
  have hpay2 : Payable s2 o.currencyID := by
    rwa [Payable, IsCollection.congr hpays.kdas]
  have hval2 : ∀ x, value s2 x = value s x + (entry o.currencyID o.currentBid.toInt x +
      entry o.currencyID (-tc.amount.toInt) x) := fun x => by
    have htot := hpays.shifts x
    simp only [value, escrowTotal, hpays.market, Pi.add_apply] at htot ⊢
    omega
  have hesc : ∀ x, escrowed o x = entry KLVIdentifier o.royaltiesFixedDeposit.toInt x +
      entry o.currencyID o.currentBid.toInt x := fun x => by
    rw [escrowed_open ho.2, MarketOrderData.currency_eq hne, Pi.add_apply]
  have hneg : ∀ x, entry o.currencyID (-tc.amount.toInt) x =
      - entry o.currencyID tc.amount.toInt x := fun x => entry_neg _ _ x
  split at h
  · obtain ⟨hinv, hknown, hval⟩ := settle_spec hi2 ho2 (by exact hstored) (by exact ⟨rfl, rfl⟩)
      (by rfl)
      (by rfl) (by exact hv.le) (by rfl) (by exact hpay2) h
    refine ⟨hinv, fun x hx => ?_, fun id2 _ h2 => hknown id2 (by rwa [hpays.market])⟩
    have hx' : value s' x = value s2 x + (entry o.currencyID tc.amount.toInt x +
      entry KLVIdentifier o.royaltiesFixedDeposit.toInt x) - escrowed o x := hval x hx
    rw [hx', hval2, hesc, hneg]
    ring
  · simp only [pure_eq_ok] at h
    subst h
    have hlive : LiveOrder s2 { o with currentBid := tc.amount, currentBidder := sender } :=
      { referral := hlo2.referral
        bid := hv.le
        deposit := hlo2.deposit
        bidless := fun hb => absurd hb (getExistingUser_spec hacc).1
        currency := fun _ => ⟨hne, hpay2⟩
        item := hlo2.item }
    refine ⟨hi2.rebid ho2 (by exact hstored) rfl (by exact ho.2) hlive, fun x _ => ?_,
      fun id2 _ => known_setMarketOrder (congrArg _ hpays.market) ho (by exact hstored) id2⟩
    have hx' : value (setMarketOrder s2 { o with currentBid := tc.amount, currentBidder := sender })
        x = value s2 x - escrowed o x + (entry KLVIdentifier o.royaltiesFixedDeposit.toInt +
          entry o.currency tc.amount.toInt) x := value_rebid ho2 (by exact hstored) (by exact ho.2) x
    rw [hx', hval2, hesc, MarketOrderData.currency_eq hne, Pi.add_apply, hneg]
    ring

variable {fc : ForkController} {tc : SellContract}

theorem sell_cases (h : sell P fc ctx s sender tc = .ok s') :
    ∃ collectionID assetID asset marketplaceID marketplace royalties marketType reservePrice s1 s2,
      s.kdas.lookup collectionID = some asset ∧ asset.assetType = .NonFungible ∧
      asset.royalties = some royalties ∧
      s.market.marketplaces.lookup marketplaceID = some marketplace ∧
      escrowItem s sender collectionID assetID = .ok s1 ∧
      takeDeposit s1 sender royalties.marketFixed = .ok s2 ∧
      s' = setMarketOrder s2 (listedOrder fc ctx sender tc (contractMarketID P ctx sender)
        marketplace marketType collectionID assetID reservePrice royalties) := by
  simp only [sell, bind_eq_ok, withReceipt_eq_ok, reject_eq_ok, orError_eq_ok, pure_eq_ok] at h
  obtain ⟨_, -, _, hmarket, ⟨collectionID, assetID⟩, -, _, -, _, -, marketType, -, asset, hasset, _,
    htype, _, -, marketplace, hplace, royalties, hroyalties, _, -, _, -, reservePrice, -, s1,
    hescrow, s2, hdeposit, rfl⟩ := h
  cases hm : tc.marketplaceID with
  | none => exact absurd hm hmarket
  | some marketplaceID =>
    rw [hm] at hplace
    simp only [getMarketplace, orError_eq_ok] at hplace
    exact ⟨collectionID, assetID, asset, marketplaceID, marketplace, royalties, marketType,
      reservePrice, s1, s2, hasset, not_not.1 htype, hroyalties, hplace, hescrow, hdeposit, rfl⟩

section
variable (hi : MarketInv s)
include hi

theorem sell_spec (hfresh : ∀ o, ¬ Live s (contractMarketID P ctx sender) o)
    (h : sell P fc ctx s sender tc = .ok s') :
    Conserves [contractMarketID P ctx sender] s s' := by
  obtain ⟨c, n, asset, _, m, r, t, rp, s1, s2, hasset, htype, hr, hm, hescrow, hdeposit, rfl⟩ :=
    sell_cases h
  have hcoll : IsCollection s c := ⟨asset, hasset, htype⟩
  obtain ⟨-, hfixed⟩ := (hi.assets c asset hasset).2.2 htype r hr
  -- the seller holds no record under the plain key of a collection
  have hnonce : isItemNonce n := by
    by_contra hn
    apply escrowItem_owned hescrow
    rw [toKDAKey_of_not_item hn]
    exact hi.items c hcoll sender
  have hitem := escrowItem_spec {KLVIdentifier} hnonce hescrow
  have hesc := hitem.pays (takeDeposit_spec (hitem.solvent hi.solvent) hfixed hdeposit)
  obtain ⟨o, ho⟩ : ∃ o, o = listedOrder fc ctx sender tc (contractMarketID P ctx sender) m t c n rp
      r := ⟨_, rfl⟩
  have hlive : LiveOrder s o := by
    rw [ho]
    exact
      { referral := hi.marketplaces _ m hm
        bid := Int.le_refl 0
        deposit := hfixed
        bidless := fun _ => rfl
        currency := fun hb => absurd rfl hb
        item := ⟨hcoll, hnonce⟩ }
  have hopen : o.isClaimed = false := by rw [ho]; rfl
  have hfresh : ∀ o2, ¬ Live s o.id o2 := by rw [ho]; exact hfresh
  have hkey : toKDAKey c n = o.itemKey := by rw [ho]; rfl
  rw [← ho]
  rw [hkey] at hesc
  refine ⟨hi.list hfresh hopen hlive (by rintro x rfl; exact hi.payable_klv) hesc,
    fun x hx => ?_, fun id2 hne h2 => ?_⟩
  case refine_2 =>
    have hid : id2 ≠ o.id := by rw [ho]; exact fun he => hne (List.mem_singleton.2 he)
    simpa only [setMarketOrder, FMap.lookup_insert_eq, hesc.orders, if_neg hid] using h2
  have htot := hesc.total x hx
  have hsum := FMap.sumBy_insert (fun _ o => escrowed o x) s.market.orders o.id o
  -- an order replaced by the listing is claimed, so it escrowed nothing
  have hold : (s.market.orders.lookup o.id).elim 0 (fun o => escrowed o x) = 0 := by
    cases hl : s.market.orders.lookup o.id with
    | none => rfl
    | some o2 =>
      have hclaimed : o2.isClaimed = true := by
        by_contra hne
        exact hfresh o2 ⟨hl, by simpa using hne⟩
      rw [Option.elim_some, escrowed_claimed hclaimed, Pi.zero_apply]
  rw [hold, add_zero] at hsum
  have hnew : escrowed o x = entry KLVIdentifier r.marketFixed.toInt x := by
    rw [escrowed_open hopen, ho]
    simp [listedOrder]
  have hneg := entry_neg KLVIdentifier r.marketFixed.toInt x
  simp only [Pi.add_apply, Pi.zero_apply] at htot
  simp only [value, escrowTotal, setMarketOrder, hesc.orders] at hsum hnew ⊢
  change s2.total x + _ = _
  omega

theorem setMarketplace_spec {m : Marketplace} (hm : m.referralPercentage ≤ HundredPercent) :
    Conserves [] s (setMarketplace s m) := by
  refine ⟨?_, fun x _ => rfl, fun _ _ h => h⟩
  constructor
  case marketplaces =>
    intro id m2 h2
    simp only [setMarketplace, FMap.lookup_insert_eq] at h2
    split at h2
    · cases h2
      exact hm
    · exact hi.marketplaces id m2 h2
  case solvent => exact hi.solvent
  case assets => exact hi.assets
  case klv => exact hi.klv
  case items => exact hi.items
  case unique => exact hi.unique
  case apart => exact hi.apart
  case stored => exact hi.stored
  case live => exact fun id o ho => LiveOrder.congr (s := s) (by exact rfl) (hi.live id o ho)
  case held => exact hi.held
  case once => exact hi.once

theorem createMarketplace_spec {tc : CreateMarketplaceContract}
    (h : createMarketplace P ctx s sender tc = .ok s') :
    Conserves [] s s' := by
  simp only [createMarketplace, bind_eq_ok, reject_eq_ok, pure_eq_ok] at h
  obtain ⟨_, -, _, -, _, -, _, hpercentage, _, -, rfl⟩ := h
  exact setMarketplace_spec hi (UInt32.not_lt.1 hpercentage)

theorem configMarketplace_spec {tc : ConfigMarketplaceContract}
    (h : configMarketplace P .allActive s sender tc = .ok s') :
    Conserves [] s s' := by
  simp only [configMarketplace, bind_eq_ok, reject_eq_ok, pure_eq_ok] at h
  obtain ⟨_, -, _, hpercentage, _, -, _, -, _, -, _, -, rfl⟩ := h
  exact setMarketplace_spec hi (UInt32.not_lt.1 hpercentage)

theorem setKDA_spec {a a' : KDAData} (ha : s.kdas.lookup id = some a)
    (htype : a'.assetType = a.assetType) (hb : Kda.MarketBounds a') :
    Conserves [] s (s.setKDA id a') := by
  have hc : ∀ c, IsCollection (s.setKDA id a') c ↔ IsCollection s c := by
    intro c
    simp only [IsCollection, setKDA, FMap.lookup_insert_eq]
    split
    · rename_i he
      subst he
      simp [ha, htype]
    · rfl
  have hk : ∀ k, CollectionKey (s.setKDA id a') k ↔ CollectionKey s k := fun k => by
    simp only [CollectionKey, hc]
  refine ⟨?_, fun x _ => rfl, fun _ _ h => h⟩
  constructor
  case assets =>
    intro id2 a2 h2
    simp only [setKDA, FMap.lookup_insert_eq] at h2
    split at h2
    · rename_i he
      cases h2
      obtain ⟨hne, hsep, -⟩ := hi.assets id a ha
      exact he ▸ ⟨hne, hsep, hb⟩
    · exact hi.assets id2 a2 h2
  case solvent => exact hi.solvent
  case klv => rw [hc]; exact hi.klv
  case marketplaces => exact hi.marketplaces
  case items => exact fun c h => hi.items c ((hc c).1 h)
  case unique => exact fun key h => hi.unique key ((hk key).1 h)
  case apart => exact fun key h => hi.apart key ((hk key).1 h)
  case stored => exact hi.stored
  case live =>
    intro id2 o ho
    have hlo := hi.live id2 o ho
    exact
      { referral := hlo.referral
        bid := hlo.bid
        deposit := hlo.deposit
        bidless := hlo.bidless
        currency := fun hb => ⟨(hlo.currency hb).1, (hlo.currency hb).2.1,
          fun h => (hlo.currency hb).2.2 ((hc _).1 h)⟩
        item := ⟨(hc _).2 hlo.item.1, hlo.item.2⟩ }
  case held => exact hi.held
  case once => exact hi.once

theorem royaltyTrigger_spec {assetID : Option Bytes} {trigger : RoyaltyTrigger}
    (h : Kda.royaltyTrigger P fc s sender assetID trigger = .ok s') :
    Conserves [] s s' := by
  obtain ⟨id, a, a', ha, rfl, htype, hb⟩ :=
    Kda.royaltyTrigger_spec (fun id a h => (hi.assets id a h).2.2) h
  exact setKDA_spec hi ha htype hb

end

end KleverGo.Market
