import KleverGo.Market.Settlement

/-!
# Items and escrow

Moving an item between a user and the market KApp touches one record on each side and no asset
balance.  `Escrows` and `Releases` state what the two directions do to the whole state; a
`Releases` may be surrounded by payments, and all ways to close an order (settlement, return to
the owners, cancellation) are such a release followed by the store of the closed order.
-/

namespace KleverGo

open Chain

open UserAccount (assetOf)

def MarketOrderData.itemKey (o : MarketOrderData) : Bytes := toKDAKey o.collectionID o.assetID

/-- The asset an order is priced in. -/
def MarketOrderData.currency (o : MarketOrderData) : Bytes := assetOf (decodedBytes o.currencyID)

theorem MarketOrderData.currency_eq {o : MarketOrderData} (h : o.currencyID ≠ []) :
    o.currency = o.currencyID := by
  unfold MarketOrderData.currency
  cases hc : o.currencyID with
  | nil => exact absurd hc h
  | cons c cs => rfl

namespace Market

variable {P : Platform}

/-! ## Moving an item -/

/-- The totals shift by `δ`; the orders, the marketplaces and the assets stay. -/
structure Moves (δ : Bytes → Int) (s s' : Chain) : Prop where
  total : ∀ x, sp ∉ x → s'.total x = s.total x + δ x
  solvent : s.Solvent → s'.Solvent
  kdas : s'.kdas = s.kdas
  orders : s'.market.orders = s.market.orders
  marketplaces : s'.market.marketplaces = s.market.marketplaces

section
variable {xs : Set Bytes} {δ δ' : Bytes → Int} {s s1 s2 : Chain}

theorem Moves.trans (h1 : Moves δ s s1) (h2 : Moves δ' s1 s2) : Moves (δ + δ') s s2 where
  total x hx := by rw [h2.total x hx, h1.total x hx, Pi.add_apply, add_assoc]
  solvent := h2.solvent ∘ h1.solvent
  kdas := h2.kdas.trans h1.kdas
  orders := h2.orders.trans h1.orders
  marketplaces := h2.marketplaces.trans h1.marketplaces

theorem Moves.of_pays (h : Pays xs δ s s1) : Moves δ s s1 where
  total x _ := h.shifts x
  solvent := h.solvent
  kdas := h.kdas
  orders := congrArg MarketStore.orders h.market
  marketplaces := congrArg MarketStore.marketplaces h.market

/-- A user whose item records are rewritten keeps every asset balance. -/
theorem Moves.rewrite {address : Bytes} {acc : UserAccount} {records : KDARecords}
    (ha : s.users.lookup address = some acc)
    (hr : ∀ x, sp ∉ x → records.lookup (toKDAKey x []) = acc.kdas.lookup (toKDAKey x []))
    (held : KDARecords) : Moves 0 s { s.setUser address { acc with kdas := records } with
      market := { s.market with kdas := held } } := by
  have hb : ∀ x, sp ∉ x →
      UserAccount.getBalance { acc with kdas := records } x = acc.getBalance x := by
    intro x hx
    simp only [UserAccount.getBalance, UserAccount.getUserKDA, hr x hx]
  constructor
  case total =>
    intro x hx
    change (s.setUser address { acc with kdas := records }).total x = _
    rw [total_setUser, ha, hb x hx]
    simp
  case solvent =>
    intro hs address' b hlookup x hx
    change (s.setUser address { acc with kdas := records }).users.lookup address' = _ at hlookup
    rw [lookup_setUser] at hlookup
    split at hlookup
    · cases hlookup
      rw [hb x hx]
      exact hs address acc ha x hx
    · exact hs address' b hlookup x hx
  case kdas => rfl
  case orders => rfl
  case marketplaces => rfl

end

/-! ## Releasing an item -/

/-- The item under `key` leaves the KApp for `receiver`; the totals shift through balances of the
assets in `xs` only. -/
structure Releases (key receiver : Bytes) (xs : Set Bytes) (δ : Bytes → Int) (s s' : Chain) : Prop
    extends Moves δ s s' where
  escrowed : s.market.kdas.lookup key ≠ none
  held : s'.market.kdas = s.market.kdas.erase key
  records : ∀ a k, (∀ x ∈ xs, k ≠ toKDAKey x []) → s'.record a k ≠ none →
    s.record a k ≠ none ∨ a = receiver ∧ k = key

variable {s' : Chain} {collectionID assetID : Bytes}

variable {s : Chain}

theorem releaseItem_spec {receiver : Bytes} {field : Option ErrField} (xs : Set Bytes)
    (hn : isItemNonce assetID) (h : releaseItem s collectionID assetID receiver field = .ok s') :
    Releases (toKDAKey collectionID assetID) receiver xs 0 s s' := by
  simp only [releaseItem, bind_eq_ok, mapError_eq_ok, withCode_eq_ok, pure_eq_ok] at h
  obtain ⟨⟨held, data⟩, hsub, acc, hacc, kdas, hadd, rfl⟩ := h
  obtain ⟨hdata, rfl⟩ := subInternalKDA_spec hsub
  obtain rfl := addInternalKDA_spec hadd
  obtain ⟨-, hacc⟩ := getExistingUser_spec hacc
  have hplain : ∀ x, sp ∉ x →
      (acc.kdas.insert (toKDAKey collectionID assetID) data).lookup (toKDAKey x []) =
        acc.kdas.lookup (toKDAKey x []) := fun x hx =>
    AList.lookup_insert_ne (toKDAKey_item_ne_plain hx hn).symm
  constructor
  case toMoves => exact .rewrite hacc hplain _
  case escrowed => simp [hdata]
  case held => rfl
  case records =>
    intro a k _ hk
    have hrec : (s.setUser receiver
        { acc with kdas := acc.kdas.insert (toKDAKey collectionID assetID) data }).record a k ≠
          none := hk
    rw [record_setUser] at hrec
    split at hrec
    · rename_i ha
      by_cases hkey : k = toKDAKey collectionID assetID
      · exact .inr ⟨ha, hkey⟩
      · left
        rw [AList.lookup_insert_ne hkey] at hrec
        rw [record, ha, hacc]
        exact hrec
    · exact .inl hrec

namespace Releases

variable {key receiver : Bytes} {xs : Set Bytes} {δ δ' : Bytes → Int} {s s1 s2 : Chain}

theorem pays (h1 : Releases key receiver xs δ s s1) (h2 : Pays xs δ' s1 s2) :
    Releases key receiver xs (δ + δ') s s2 where
  toMoves := h1.toMoves.trans (.of_pays h2)
  escrowed := h1.escrowed
  held := by rw [h2.market, h1.held]
  records a k hk hr := h1.records a k hk (h2.records a k hk ▸ hr)

theorem after_pays (h1 : Pays xs δ s s1) (h2 : Releases key receiver xs δ' s1 s2) :
    Releases key receiver xs (δ + δ') s s2 where
  toMoves := .trans (.of_pays h1) h2.toMoves
  escrowed := h1.market ▸ h2.escrowed
  held := by rw [h2.held, h1.market]
  records a k hk hr := by
    rcases h2.records a k hk hr with h | h
    · exact .inl (h1.records a k hk ▸ h)
    · exact .inr h

end Releases

/-! ## Taking an item into escrow -/

/-- The item under `key` leaves `sender` for the KApp; the totals shift through balances of the
assets in `xs` only. -/
structure Escrows (key sender : Bytes) (xs : Set Bytes) (δ : Bytes → Int) (s s' : Chain) : Prop
    extends Moves δ s s' where
  owned : s.record sender key ≠ none
  held : ∃ data, s'.market.kdas = s.market.kdas.insert key data
  records : ∀ a k, (∀ x ∈ xs, k ≠ toKDAKey x []) → s'.record a k ≠ none →
    s.record a k ≠ none ∧ ¬ (a = sender ∧ k = key)

variable {sender : Bytes}

theorem escrowItem_owned (h : escrowItem s sender collectionID assetID = .ok s') :
    s.record sender (toKDAKey collectionID assetID) ≠ none := by
  simp only [escrowItem, bind_eq_ok, withReceipt_eq_ok] at h
  obtain ⟨acc, hacc, ⟨kdas, data⟩, hsub, -⟩ := h
  obtain ⟨-, hacc⟩ := getExistingUser_spec hacc
  obtain ⟨hdata, -⟩ := subInternalKDA_spec hsub
  simp [record, hacc, hdata]

theorem escrowItem_spec (xs : Set Bytes) (hn : isItemNonce assetID)
    (h : escrowItem s sender collectionID assetID = .ok s') :
    Escrows (toKDAKey collectionID assetID) sender xs 0 s s' := by
  have howned := escrowItem_owned h
  simp only [escrowItem, bind_eq_ok, withReceipt_eq_ok, pure_eq_ok] at h
  obtain ⟨acc, hacc, ⟨kdas, data⟩, hsub, held, hadd, rfl⟩ := h
  obtain ⟨-, hacc⟩ := getExistingUser_spec hacc
  obtain ⟨hdata, rfl⟩ := subInternalKDA_spec hsub
  obtain rfl := addInternalKDA_spec hadd
  have hplain : ∀ x, sp ∉ x →
      (acc.kdas.erase (toKDAKey collectionID assetID)).lookup (toKDAKey x []) =
        acc.kdas.lookup (toKDAKey x []) := fun x hx =>
    AList.lookup_erase_ne (toKDAKey_item_ne_plain hx hn).symm
  constructor
  case toMoves => exact .rewrite hacc hplain _
  case owned => exact howned
  case held => exact ⟨data, rfl⟩
  case records =>
    intro a k _ hk
    have hrec : (s.setUser sender { acc with
        kdas := acc.kdas.erase (toKDAKey collectionID assetID) }).record a k ≠ none := hk
    rw [record_setUser] at hrec
    split at hrec
    · rename_i ha
      rw [FMap.lookup_erase_eq] at hrec
      split at hrec
      · exact absurd rfl hrec
      · rename_i hkey
        refine ⟨?_, fun hc => hkey hc.2⟩
        rw [record, ha, hacc]
        exact hrec
    · rename_i ha
      exact ⟨hrec, fun hc => ha hc.1⟩

theorem Escrows.pays {key : Bytes} {xs : Set Bytes} {δ δ' : Bytes → Int} {s s1 s2 : Chain}
    (h1 : Escrows key sender xs δ s s1) (h2 : Pays xs δ' s1 s2) :
    Escrows key sender xs (δ + δ') s s2 where
  toMoves := h1.toMoves.trans (.of_pays h2)
  owned := h1.owned
  held := by rw [h2.market]; exact h1.held
  records a k hk hr := h1.records a k hk (h2.records a k hk ▸ hr)

theorem takeDeposit_spec {marketFixed : Int64} (hs : s.Solvent) (hn : 0 ≤ marketFixed.toInt)
    (h : takeDeposit s sender marketFixed = .ok s') :
    Pays {KLVIdentifier} (entry KLVIdentifier (-marketFixed.toInt)) s s' := by
  unfold takeDeposit at h
  split at h
  · rename_i hle
    rw [Amount.not_pos_iff] at hle
    cases h
    rw [show -marketFixed.toInt = 0 by omega, entry_zero]
    exact .refl _ _
  · simp only [bind_eq_ok, withReceipt_eq_ok, pure_eq_ok] at h
    obtain ⟨acc, hacc, acc', hacc', rfl⟩ := h
    have hklv : sp ∉ assetOf (some KLVIdentifier) := by decide
    exact pays_subFromBalance hs hklv hacc hacc'

/-! ## Refunds -/

variable {o : MarketOrderData}

theorem refundLastBidder_spec {currencyID : Bytes}
    (hb : o.currentBidder = [] → o.currentBid.toInt = 0)
    (h : refundLastBidder s o currencyID = .ok s') :
    Pays {currencyID} (entry currencyID o.currentBid.toInt) s s' := by
  unfold refundLastBidder at h
  split at h
  · rename_i he
    cases h
    rw [hb he, entry_zero]
    exact .refl _ _
  · simp only [bind_eq_ok, withCode_eq_ok, pure_eq_ok] at h
    obtain ⟨acc, hacc, acc', hacc', rfl⟩ := h
    exact pays_addToBalance hacc hacc'

/-- The assets an order is refunded in: KLV, and its currency once there is a bid. -/
def refundAssets (o : MarketOrderData) : Set Bytes :=
  {x | x = KLVIdentifier ∨ o.currentBidder ≠ [] ∧ x = o.currency}

theorem refundBidder_spec (hb : o.currentBidder = [] → o.currentBid.toInt = 0)
    (h : refundBidder s o = .ok s') :
    Pays (refundAssets o) (entry o.currency o.currentBid.toInt) s s' := by
  unfold refundBidder at h
  split at h
  · rename_i he
    cases h
    rw [hb he, entry_zero]
    exact .refl _ _
  rename_i hne
  simp only [bind_eq_ok, withReceipt_eq_ok, pure_eq_ok] at h
  obtain ⟨acc, hacc, acc', hacc', rfl⟩ := h
  refine (pays_addToBalance hacc hacc').mono ?_
  rintro x rfl
  exact .inr ⟨hne, rfl⟩

theorem refundDeposit_spec {s : Chain} (hd : 0 ≤ o.royaltiesFixedDeposit.toInt)
    (h : refundDeposit s o = .ok s') :
    Pays (refundAssets o) (entry KLVIdentifier o.royaltiesFixedDeposit.toInt) s s' := by
  unfold refundDeposit at h
  split at h
  · rename_i hle
    rw [Amount.not_pos_iff] at hle
    cases h
    rw [show o.royaltiesFixedDeposit.toInt = 0 by omega, entry_zero]
    exact .refl _ _
  · simp only [bind_eq_ok, withReceipt_eq_ok, pure_eq_ok] at h
    obtain ⟨acc, hacc, acc', hacc', rfl⟩ := h
    refine (pays_addToBalance hacc hacc').mono ?_
    rintro x rfl
    exact .inl rfl

/-- A cancelled bid is refunded, and only the bid of the order changes. -/
theorem refundCancelledBid_spec {o' : MarketOrderData}
    (hb : o.currentBidder = [] → o.currentBid.toInt = 0) (hn : 0 ≤ o.currentBid.toInt)
    (h : refundCancelledBid .allActive s sender o = .ok (s', o')) :
    Pays (refundAssets o) (entry o.currency o.currentBid.toInt) s s' ∧ o'.id = o.id ∧
      o'.collectionID = o.collectionID ∧ o'.assetID = o.assetID := by
  unfold refundCancelledBid at h
  split at h
  · rename_i he
    cases h
    have h0 : o.currentBid.toInt = 0 := by
      rcases he with he | he
      · exact hb he
      · rw [Amount.not_pos_iff] at he
        omega
    rw [h0, entry_zero]
    exact ⟨.refl _ _, rfl, rfl, rfl⟩
  · simp only [bind_eq_ok, withReceipt_eq_ok, pure_eq_ok, Prod.mk.injEq,
      ForkController.allActive, if_true] at h
    obtain ⟨acc, hacc, acc', hacc', rfl, rfl⟩ := h
    rename_i hne
    refine ⟨(pays_addToBalance hacc hacc').mono ?_, rfl, rfl, rfl⟩
    rintro x rfl
    exact .inr ⟨fun he => hne (.inl he), rfl⟩

/-! ## Closing an order -/

/-- A settlement pays the bid in its currency and the deposit in KLV, hands the item to the
bidder and stores the order. -/
theorem executeBuyMarket_spec {bidder : Bytes} {currencyID : Option Bytes}
    (hbid : 0 ≤ o.currentBid.toInt) (hdep : 0 ≤ o.royaltiesFixedDeposit.toInt)
    (href : o.referralPercentage ≤ HundredPercent) (hn : isItemNonce o.assetID)
    (h : executeBuyMarket P .allActive s bidder o currencyID = .ok s') :
    ∃ s1, s' = setMarketOrder s1 o ∧
      Releases o.itemKey bidder {assetOf currencyID, KLVIdentifier}
        (entry (assetOf currencyID) o.currentBid.toInt +
          entry KLVIdentifier o.royaltiesFixedDeposit.toInt) s s1 := by
  obtain ⟨_, _, -, -, hsettled⟩ := executeBuyMarket_settles hbid hdep href h
  obtain ⟨referral, royalty, seller, ⟨s1, s2, s3, s4, s5, h1, h2, h3, h4, h5, rfl⟩, -, -, -, hsum⟩ :=
    hsettled (.inl ⟨rfl, rfl⟩)
  have hcur : ({assetOf currencyID} : Set Bytes) ⊆ {assetOf currencyID, KLVIdentifier} := by simp
  have hklv : ({KLVIdentifier} : Set Bytes) ⊆ {assetOf currencyID, KLVIdentifier} := by simp
  have hpaid := (((h1.pays.mono hcur).trans (h2.pays.mono hklv)).trans (h3.pays.mono hcur)).trans
    (h4.pays.mono hcur)
  have hrel := Releases.after_pays hpaid (releaseItem_spec _ hn h5)
  refine ⟨s5, rfl, ?_⟩
  have hδ : entry (assetOf currencyID) referral +
      entry KLVIdentifier o.royaltiesFixedDeposit.toInt + entry (assetOf currencyID) royalty +
      entry (assetOf currencyID) seller + 0 =
      entry (assetOf currencyID) o.currentBid.toInt +
        entry KLVIdentifier o.royaltiesFixedDeposit.toInt := by
    rw [← hsum, ← entry_add, ← entry_add]
    abel
  rw [← hδ]
  exact hrel

/-- Returning an order pays the deposit and the bid back and hands the item to the owner. -/
theorem returnOrderToOwners_spec (hb : o.currentBidder = [] → o.currentBid.toInt = 0)
    (hdep : 0 ≤ o.royaltiesFixedDeposit.toInt) (hn : isItemNonce o.assetID)
    (h : returnOrderToOwners s o = .ok s') :
    Releases o.itemKey o.ownerAddress (refundAssets o)
      (entry o.currency o.currentBid.toInt +
        entry KLVIdentifier o.royaltiesFixedDeposit.toInt) s s' := by
  simp only [returnOrderToOwners, bind_eq_ok] at h
  obtain ⟨_, _, s1, h1, s2, h2, h3⟩ := h
  have hrel := ((releaseItem_spec (refundAssets o) hn h1).pays (refundDeposit_spec hdep h2)).pays
    (refundBidder_spec hb h3)
  rwa [zero_add, add_comm] at hrel

end Market

end KleverGo
