import KleverGo.Lib.Shares
import KleverGo.Market.Model

/-!
# What a settlement pays

Settling an order at a bid pays the referral, the royalty splits, the royalty receiver and the
order owner out of the bid, and the fixed deposit out of the escrow, with a rounded percentage at
each stage.  A payment is a `Leg`.  Legs are not above what is to pay because either
`FixMarketBuyOverflow` checks it, or percentages are computed in integers, as they are since
`EnableSmartContracts`, and sum to at most the whole.

* `settlement_split` — **a settlement consists of legs that are not negative and sum to the price,
  and of legs that sum to the deposit**;
* `float_royalty_above_price` — a settlement before both forks, with `float64` percentages.
-/

namespace KleverGo

open List

open UserAccount (assetOf)

namespace Market

structure Leg where
  address : Bytes
  amount : Int64

/-- Pays one leg after the other in one currency. -/
def payLegs (currencyID : Option Bytes) (s : Chain) (legs : List Leg) : Except TxError Chain :=
  legs.foldlM (fun s leg => s.creditLoaded leg.address leg.amount currencyID) s

/-- The legs pay `value` in parts that are not negative. -/
structure Splits (value : Int) (legs : List Leg) : Prop where
  nonneg : ∀ leg ∈ legs, 0 ≤ leg.amount.toInt
  total : (legs.map fun leg => leg.amount.toInt).sum = value

/-- The state was reached by paying `value`. -/
def PaysLegs (currencyID : Option Bytes) (value : Int) (s s' : Chain) : Prop :=
  ∃ legs, payLegs currencyID s legs = .ok s' ∧ Splits value legs

variable {P : Platform} {fc : ForkController} {currencyID : Option Bytes} {s s₁ s' : Chain}

variable {v w : Int}

theorem Splits.append {legs legs' : List Leg} (h : Splits v legs) (h' : Splits w legs') :
    Splits (v + w) (legs ++ legs') := by
  refine ⟨fun leg hleg => ?_, by simp [h.total, h'.total]⟩
  rcases mem_append.1 hleg with hleg | hleg
  · exact h.nonneg leg hleg
  · exact h'.nonneg leg hleg

theorem PaysLegs.trans (h : PaysLegs currencyID v s s₁) (h' : PaysLegs currencyID w s₁ s') :
    PaysLegs currencyID (v + w) s s' := by
  obtain ⟨legs, hpaid, hlegs⟩ := h
  obtain ⟨legs', hpaid', hlegs'⟩ := h'
  refine ⟨legs ++ legs', ?_, hlegs.append hlegs'⟩
  simp only [payLegs, foldlM_append, bind_eq_ok]
  exact ⟨s₁, hpaid, hpaid'⟩

theorem PaysLegs.nothing (s : Chain) : PaysLegs currencyID 0 s s := ⟨[], rfl, by simp, by simp⟩

variable {address : Bytes} {amount : Int64}

theorem PaysLegs.credit (h : s.creditLoaded address amount currencyID = .ok s') :
    PaysLegs currencyID amount.toInt s s' := by
  have hn := (Chain.creditLoaded_spec h).1
  exact ⟨[⟨address, amount⟩], by simpa [payLegs] using h, by simpa using hn, by simp⟩

/-- A leg that is only paid if it is positive. -/
theorem PaysLegs.positive (address : Bytes) (hn : 0 ≤ amount.toInt)
    (h : (if amount ≤ 0 then pure s else s.creditLoaded address amount currencyID) = .ok s') :
    PaysLegs currencyID amount.toInt s s' := by
  split at h
  · rename_i hle
    rw [Amount.not_pos_iff] at hle
    cases h
    rw [show amount.toInt = 0 by omega]
    exact .nothing s
  · exact .credit h

/-- On the ledger, legs add their value to the balances of the currency. -/
theorem PaysLegs.pays {value : Int} (h : PaysLegs currencyID value s s') :
    Chain.Pays {assetOf currencyID} (entry (assetOf currencyID) value) s s' := by
  obtain ⟨legs, hpaid, -, rfl⟩ := h
  induction legs generalizing s with
  | nil =>
    cases hpaid
    simpa using Chain.Pays.refl _ s'
  | cons leg legs ih =>
    simp only [payLegs, foldlM_cons, bind_eq_ok] at hpaid
    obtain ⟨s₁, hleg, hpaid⟩ := hpaid
    have := (Chain.creditLoaded_spec hleg).2.trans (ih hpaid)
    rwa [entry_add] at this

/-! ## Splits of a royalty -/

variable {value rest : Int64}

/-- One split pays its percentage, at most what is to pay where that is checked. -/
theorem computeSplitRoyalties_leg {percentage : UInt32} {toPay : Int64} (hv : 0 ≤ value.toInt)
    (h : computeSplitRoyalties P fc s address currencyID value (toI64 percentage) toPay =
      .ok (s', rest)) :
    ∃ split : Int64, PaysLegs currencyID split.toInt s s' ∧ rest = toPay - split ∧
      0 ≤ split.toInt ∧ (fc.fixMarketBuyOverflow = true → split.toInt ≤ toPay.toInt) ∧
      (fc.enableSmartContracts = true →
        split.toInt = value.toInt * percentage.toNat / 10000) := by
  simp only [computeSplitRoyalties, splitRoyaltyAmount, bind_eq_ok, withCode_eq_ok,
    orError_eq_ok, reject_eq_ok, pure_eq_ok, Prod.mk.injEq] at h
  obtain ⟨decoded, -, acc, hacc, _, ⟨split, hsplit, -, hle, rfl⟩, acc', hacc', rfl, rfl⟩ := h
  have hcredit : s.creditLoaded decoded split currencyID = .ok (s.setUser decoded acc') := by
    simp only [Chain.creditLoaded, bind_eq_ok, withCode_eq_ok, pure_eq_ok]
    exact ⟨acc, hacc, acc', hacc', rfl⟩
  -- a credit is refused if it is negative
  refine ⟨split, .credit hcredit, rfl, (Chain.creditLoaded_spec hcredit).1, fun hfix => ?_,
    fun hsc => ?_⟩
  · simpa only [hfix, true_and, Int64.lt_iff_toInt_lt, not_lt] using hle
  · rw [hsc] at hsplit
    simpa using (computePercentageI64_spec hv (by simp) hsplit).2

/-- The splits pay their percentages and leave the rest, which is not negative. -/
theorem foldlM_computeSplitRoyalties {pct : Bytes → UInt32} (hv : 0 ≤ value.toInt)
    (keys : List Bytes) :
    ∀ {s : Chain} {toPay : Int64}, 0 ≤ toPay.toInt →
      (fc.fixMarketBuyOverflow = true ∨ fc.enableSmartContracts = true ∧
        (keys.map fun k => value.toInt * (pct k).toNat / 10000).sum ≤ toPay.toInt) →
      keys.foldlM (fun st key => computeSplitRoyalties P fc st.1 key currencyID value
        (toI64 (pct key)) st.2) (s, toPay) = .ok (s', rest) →
      0 ≤ rest.toInt ∧ PaysLegs currencyID (toPay.toInt - rest.toInt) s s' := by
  have hlow : ∀ k, 0 ≤ value.toInt * (pct k).toNat / 10000 := fun k =>
    Int.ediv_nonneg (Int.mul_nonneg hv (by omega)) (by decide)
  induction keys with
  | nil =>
    intro s toPay hpay hsum h
    cases h
    exact ⟨hpay, by simpa using PaysLegs.nothing s'⟩
  | cons key keys ih =>
    intro s toPay hpay hsum h
    simp only [foldlM_cons, bind_eq_ok] at h
    obtain ⟨⟨s₁, toPay1⟩, hfirst, h⟩ := h
    obtain ⟨split, hleg, rfl, hsplit, hchecked, hexact⟩ := computeSplitRoyalties_leg hv hfirst
    have hlater : 0 ≤ (keys.map fun k => value.toInt * (pct k).toNat / 10000).sum :=
      sum_nonneg fun n hn => by
        obtain ⟨k, -, rfl⟩ := mem_map.1 hn
        exact hlow k
    simp only [map_cons, sum_cons] at hsum
    have hle : split.toInt ≤ toPay.toInt := by
      rcases hsum with hfix | ⟨hsc, hsum⟩
      · exact hchecked hfix
      · have := hexact hsc
        omega
    have hsub := Amount.toInt_sub hpay hsplit
    have hlast := hsum.imp_right fun hfits => And.intro hfits.1
      (show (keys.map fun k => value.toInt * (pct k).toNat / 10000).sum ≤ (toPay - split).toInt by
        have := hexact hfits.1
        omega)
    obtain ⟨hrest, hpaid⟩ := ih (by omega) hlast h
    have := hleg.trans hpaid
    rw [hsub, show split.toInt + (toPay.toInt - split.toInt - rest.toInt) =
      toPay.toInt - rest.toInt by omega] at this
    exact ⟨hrest, this⟩

/-- The percentages of one kind over the splits. -/
def percentages (splits : FMap Bytes RoyaltySplitData) (pct : RoyaltySplitData → UInt32) : Int :=
  splits.sumBy fun _ data => (pct data).toNat

/-- The splits are checked, or they are exact and at most the whole. -/
def SplitsFit (fc : ForkController) (splits : FMap Bytes RoyaltySplitData)
    (pct : RoyaltySplitData → UInt32) : Prop :=
  fc.fixMarketBuyOverflow = true ∨ fc.enableSmartContracts = true ∧ percentages splits pct ≤ 10000

variable {splits : FMap Bytes RoyaltySplitData} {pct : RoyaltySplitData → UInt32}

theorem paySplits_pays (hv : 0 ≤ value.toInt) (hpct : SplitsFit fc splits pct)
    (h : paySplits P fc splits pct currencyID value s = .ok (s', rest)) :
    0 ≤ rest.toInt ∧ PaysLegs currencyID (value.toInt - rest.toInt) s s' := by
  refine foldlM_computeSplitRoyalties hv _ hv (hpct.imp_right (And.imp_right fun hpct => ?_)) h
  have hperm : (orderedKeys splits fc.fixAuditChangesV6).Perm splits.keys := by
    unfold orderedKeys
    split
    · exact perm_insertionSort _ _
    · exact .refl _
  have hshares := @sum_shares_le _ _ (splits.keys.map fun k =>
    (((splits.lookup k).elim 0 pct).toNat : Int)) hv (by decide : (0 : Int) < 10000) ?_
  · rw [(hperm.map _).sum_eq]
    simpa [map_map, Function.comp_def] using hshares
  refine le_trans (le_of_eq ?_) hpct
  unfold percentages FMap.sumBy AList.keys List.keys
  rw [map_map]
  refine congrArg List.sum (map_congr_left fun e he => ?_)
  rw [Function.comp_apply, FMap.mem_entries_iff.1 he]
  rfl

/-- What the splits leave goes to the receiver. -/
theorem paySplits_rest (address : Bytes) (hv : 0 ≤ value.toInt) (hpct : SplitsFit fc splits pct)
    (h : paySplits P fc splits pct currencyID value s = .ok (s₁, rest))
    (hrest : (if rest ≤ 0 then pure s₁ else s₁.creditLoaded address rest currencyID) = .ok s') :
    PaysLegs currencyID value.toInt s s' := by
  obtain ⟨hn, hpaid⟩ := paySplits_pays hv hpct h
  simpa using hpaid.trans (.positive address hn hrest)

variable {order : MarketOrderData} {royalties : RoyaltiesData}

theorem computeRoyaltiesFixedDeposit_pays (hv : 0 ≤ order.royaltiesFixedDeposit.toInt)
    (hpct : SplitsFit fc royalties.splitRoyalties (·.percentMarketFixed))
    (h : computeRoyaltiesFixedDeposit P fc s order royalties = .ok s') :
    PaysLegs (some KLVIdentifier) order.royaltiesFixedDeposit.toInt s s' := by
  unfold computeRoyaltiesFixedDeposit at h
  split at h
  · rename_i hle
    exact .positive [] hv (by rwa [if_pos hle])
  · simp only [bind_eq_ok] at h
    obtain ⟨⟨s₁, rest⟩, hsplits, h⟩ := h
    exact paySplits_rest _ hv hpct hsplits h

variable {asset : KDAData}

theorem royaltyReceiver_loads {acc : UserAccount}
    (h : royaltyReceiver fc s asset royalties = .ok (address, acc)) :
    s.loadUser address = .ok acc := by
  unfold royaltyReceiver at h
  split at h
  · simp only [bind_eq_ok, pure_eq_ok, Prod.mk.injEq] at h
    obtain ⟨_, hload, rfl, rfl⟩ := h
    exact hload
  split at h <;>
  · simp only [Chain.getExistingUser, bind_eq_ok, pure_eq_ok, reject_eq_ok,
      orError_eq_ok, Prod.mk.injEq] at h
    obtain ⟨_, ⟨_, hne, hfound⟩, rfl, rfl⟩ := h
    simp [Chain.loadUser, reject, hne, hfound]

theorem computeRoyaltiesAmount_pays (hv : 0 ≤ value.toInt)
    (hpct : SplitsFit fc royalties.splitRoyalties (·.percentMarketPercentage))
    (h : computeRoyaltiesAmount P fc s asset royalties currencyID value = .ok s') :
    PaysLegs currencyID value.toInt s s' := by
  unfold computeRoyaltiesAmount at h
  split at h
  · rename_i hle
    exact .positive [] hv (by rwa [if_pos hle])
  simp only [bind_eq_ok] at h
  obtain ⟨⟨s₁, rest⟩, hsplits, h⟩ := h
  split at h
  · rename_i hle
    exact paySplits_rest [] hv hpct hsplits (by rwa [if_pos hle])
  rename_i hpos
  simp only [bind_eq_ok, withCode_eq_ok, pure_eq_ok] at h
  obtain ⟨⟨address, acc⟩, hreceiver, acc', hacc', rfl⟩ := h
  refine paySplits_rest address hv hpct hsplits ?_
  rw [if_neg hpos]
  simp only [Chain.creditLoaded, bind_eq_ok, withCode_eq_ok, pure_eq_ok]
  exact ⟨acc, royaltyReceiver_loads hreceiver, acc', hacc', rfl⟩

/-! ## The shares of a bid -/

/-- The royalty percentage a settlement uses: that of the order if it carries one. -/
def royaltyPercentageOf (order : MarketOrderData) (royalties : RoyaltiesData) : UInt32 :=
  if order.royaltySnapshotted then order.royaltyPercentage else royalties.marketPercentage

/-- A percentage of a value: the exact one, or before `EnableSmartContracts` that of `float64`. -/
def IsShare (P : Platform) (fc : ForkController) (value : Int64) (percentage : UInt32)
    (amount : Int) : Prop :=
  amount = if fc.enableSmartContracts then value.toInt * percentage.toNat / 10000
    else (floatPercentage P value (toI64 percentage)).toInt

section

variable {percentage : UInt32} {share : Int64} (hv : 0 ≤ value.toInt)
  (h : computePercentageI64 P value (toI64 percentage) fc.enableSmartContracts = .ok share)

include hv h

theorem isShare_of_computePercentageI64 : IsShare P fc value percentage share.toInt := by
  unfold IsShare
  cases hsc : fc.enableSmartContracts with
  | false =>
    rw [hsc, computePercentageI64_unchecked, Except.ok.injEq] at h
    rw [h, if_neg Bool.false_ne_true]
  | true =>
    rw [hsc] at h
    rw [(computePercentageI64_spec hv (by simp) h).2, toInt_toI64, if_pos rfl]

theorem share_nonneg_or_min : 0 ≤ share.toInt ∨ share = Int64.minValue := by
  cases hsc : fc.enableSmartContracts with
  | false =>
    rw [hsc, computePercentageI64_unchecked, Except.ok.injEq] at h
    exact h ▸ floatPercentage_nonneg P hv (by simp)
  | true =>
    rw [hsc] at h
    exact .inl (computePercentageI64_spec hv (by simp) h).1

/-- A share is within its value, in `float64` if it is at most the half. -/
theorem share_within (hle : percentage.toNat ≤ 5000 ∨
    fc.enableSmartContracts = true ∧ percentage.toNat ≤ 10000) :
    0 ≤ share.toInt ∧ share.toInt ≤ value.toInt := by
  cases hsc : fc.enableSmartContracts with
  | false =>
    rw [hsc, computePercentageI64_unchecked, Except.ok.injEq] at h
    refine h ▸ floatPercentage_le P hv (by simp) ?_
    simpa [hsc] using hle
  | true =>
    rw [hsc] at h
    have hwhole : percentage.toNat ≤ 10000 := by omega
    exact ⟨(computePercentageI64_spec hv (by simp) h).1,
      computePercentageI64_le hv (by simp) (by simpa using hwhole) h⟩

end

/-- What is left of a value after two parts tells that both fit, if one of them is within the value
and the other is at worst the least number. -/
theorem parts_of_rest {part other : Int64} (hv : 0 ≤ value.toInt)
    (hrest : 0 ≤ (value - part - other).toInt)
    (hparts : (0 ≤ part.toInt ∧ part.toInt ≤ value.toInt) ∧
        (0 ≤ other.toInt ∨ other = Int64.minValue) ∨
      (0 ≤ part.toInt ∨ part = Int64.minValue) ∧
        0 ≤ other.toInt ∧ other.toInt ≤ value.toInt) :
    0 ≤ part.toInt ∧ 0 ≤ other.toInt ∧
      part.toInt + other.toInt + (value - part - other).toInt = value.toInt := by
  have hmin : (Int64.minValue : Int64).toInt = -2 ^ 63 := by decide
  have hv' := value.toInt_lt
  have hpart := part.toInt_lt
  have hother := other.toInt_lt
  rw [← Int64.toInt_inj, hmin, ← Int64.toInt_inj, hmin] at hparts
  rw [Int64.toInt_sub, Int64.toInt_sub, Int.bmod, Int.bmod] at hrest ⊢
  omega

/-- The shares of a bid sum to it: what is left for the owner is not negative, because that is
checked or because the percentages leave room for it.  The referral share may be dropped. -/
theorem computeSettlementAmounts_shares {bid : Int64} {amounts : SettlementAmounts}
    (hbid : 0 ≤ bid.toInt) (href : order.referralPercentage ≤ HundredPercent)
    (hforks : fc.enableSmartContracts = true ∧ fc.fixMarketBuyOverflow = true ∨
      (fc.enableSmartContracts = true ∨ fc.fixMarketBuyOverflow = true) ∧
        (royaltyPercentageOf order royalties).toNat + order.referralPercentage.toNat ≤ 10000)
    (h : computeSettlementAmounts P fc s order (some royalties) bid = .ok amounts) :
    (IsShare P fc bid order.referralPercentage amounts.referral.toInt ∨
      amounts.referral.toInt = 0) ∧ 0 ≤ amounts.referral.toInt ∧
    IsShare P fc bid (royaltyPercentageOf order royalties) amounts.royalties.toInt ∧
    0 ≤ amounts.royalties.toInt ∧ 0 ≤ amounts.marketOwner.toInt ∧
    amounts.referral.toInt + amounts.royalties.toInt + amounts.marketOwner.toInt = bid.toInt := by
  simp only [computeSettlementAmounts, bind_eq_ok, withCode_eq_ok, reject_eq_ok,
    orError_eq_ok, pure_eq_ok, Option.some.injEq] at h
  obtain ⟨share, hshare, address, -, _, rfl, royalty, hroyalty, -, hown, rfl⟩ := h
  change computePercentageI64 P bid (toI64 (royaltyPercentageOf order royalties)) _ = _ at hroyalty
  have href : order.referralPercentage.toNat ≤ 10000 := UInt32.le_iff_toNat_le.1 href
  generalize hreferral : (if fc.fixAuditChangesV4 ∧ address = [] then 0 else share) = referral
    at hown ⊢
  have hcases : referral = share ∨ referral = 0 := by
    rw [← hreferral]
    split
    · exact .inr rfl
    · exact .inl rfl
  have hworst : 0 ≤ referral.toInt ∨ referral = Int64.minValue := by
    rcases hcases with rfl | rfl
    · exact share_nonneg_or_min hbid hshare
    · exact .inl le_rfl
  have hwithin (hle : order.referralPercentage.toNat ≤ 5000 ∨
      fc.enableSmartContracts = true ∧ order.referralPercentage.toNat ≤ 10000) :
      0 ≤ referral.toInt ∧ referral.toInt ≤ bid.toInt := by
    rcases hcases with rfl | rfl
    · exact share_within hbid hshare hle
    · exact ⟨le_rfl, hbid⟩
  have hparts : (0 ≤ referral.toInt ∧ referral.toInt ≤ bid.toInt) ∧
        (0 ≤ royalty.toInt ∨ royalty = Int64.minValue) ∨
      (0 ≤ referral.toInt ∨ referral = Int64.minValue) ∧
        0 ≤ royalty.toInt ∧ royalty.toInt ≤ bid.toInt := by
    -- of two `float64` shares that are at most the whole, one is at most the half
    by_cases hhalf : order.referralPercentage.toNat ≤ 5000 ∨ fc.enableSmartContracts = true
    · exact .inl ⟨hwithin (hhalf.imp_right (⟨·, href⟩)), share_nonneg_or_min hbid hroyalty⟩
    · exact .inr ⟨hworst, share_within hbid hroyalty (.inl (by grind))⟩
  have hrest : 0 ≤ (bid - referral - royalty).toInt := by
    by_cases hfix : fc.fixMarketBuyOverflow = true
    · simpa only [hfix, true_and, Amount.not_neg_iff] using hown
    · have hsc : fc.enableSmartContracts = true := by grind
      have hsum : (royaltyPercentageOf order royalties).toNat + order.referralPercentage.toNat ≤
          10000 := by grind
      obtain ⟨hs0, hs⟩ := computePercentageI64_spec hbid (by simp) (hsc ▸ hshare)
      obtain ⟨hr0, hr⟩ := computePercentageI64_spec hbid (by simp) (hsc ▸ hroyalty)
      have hle := @sum_shares_le _ _ [((royaltyPercentageOf order royalties).toNat : Int),
        (order.referralPercentage.toNat : Int)] hbid (by decide : (0 : Int) < 10000)
        (by simp; omega)
      simp only [map_cons, map_nil, sum_cons, sum_nil] at hle
      rw [toInt_toI64] at hs hr
      have hreferral' : 0 ≤ referral.toInt ∧ referral.toInt ≤ share.toInt := by
        rcases hcases with rfl | rfl
        · exact ⟨hs0, le_rfl⟩
        · exact ⟨le_rfl, hs0⟩
      have hsub := Amount.toInt_sub (a := bid) (b := referral) hbid (by omega)
      rw [Amount.toInt_sub (by omega) hr0]
      omega
  obtain ⟨hr0, hy0, hsum⟩ := parts_of_rest hbid hrest hparts
  refine ⟨?_, hr0, isShare_of_computePercentageI64 hbid hroyalty, hy0, hrest, hsum⟩
  rcases hcases with rfl | rfl
  · exact .inl (isShare_of_computePercentageI64 hbid hshare)
  · exact .inr rfl

/-! ## The whole settlement -/

/-- The percentages of an order and of the splits are at most the whole. -/
structure Fits (order : MarketOrderData) (royalties : RoyaltiesData) : Prop where
  shares : (royaltyPercentageOf order royalties).toNat + order.referralPercentage.toNat ≤ 10000
  market : percentages royalties.splitRoyalties (·.percentMarketPercentage) ≤ 10000
  fixed : percentages royalties.splitRoyalties (·.percentMarketFixed) ≤ 10000

/-- The stages of a settlement and what they pay. -/
structure Settled (P : Platform) (fc : ForkController) (currencyID : Option Bytes)
    (bidder : Bytes) (order : MarketOrderData) (royalties : RoyaltiesData) (s s' : Chain)
    (referral royalty seller : Int) : Prop where
  paid : ∃ s₁ s₂ s₃ s₄ s₅, PaysLegs currencyID referral s s₁ ∧
    PaysLegs (some KLVIdentifier) order.royaltiesFixedDeposit.toInt s₁ s₂ ∧
    PaysLegs currencyID royalty s₂ s₃ ∧ PaysLegs currencyID seller s₃ s₄ ∧
    releaseItem s₄ order.collectionID order.assetID bidder none = .ok s₅ ∧
    s' = setMarketOrder s₅ order
  referralShare : 0 ≤ referral ∧
    (IsShare P fc order.currentBid order.referralPercentage referral ∨ referral = 0)
  royaltyShare : 0 ≤ royalty ∧
    IsShare P fc order.currentBid (royaltyPercentageOf order royalties) royalty
  sellerShare : 0 ≤ seller
  total : referral + royalty + seller = order.currentBid.toInt

theorem executeBuyMarket_settles {bidder : Bytes}
    (hbid : 0 ≤ order.currentBid.toInt) (hdeposit : 0 ≤ order.royaltiesFixedDeposit.toInt)
    (href : order.referralPercentage ≤ HundredPercent)
    (h : executeBuyMarket P fc s bidder order currencyID = .ok s') :
    ∃ asset royalties, s.getKDA (decodedBytes order.collectionID) = .ok (some asset) ∧
      asset.royalties = some royalties ∧
      ((fc.enableSmartContracts = true ∧ fc.fixMarketBuyOverflow = true ∨
          (fc.enableSmartContracts = true ∨ fc.fixMarketBuyOverflow = true) ∧
            Fits order royalties) →
        ∃ referral royalty seller,
          Settled P fc currencyID bidder order royalties s s' referral royalty seller) := by
  simp only [executeBuyMarket, bind_eq_ok, mapError_eq_ok, pure_eq_ok] at h
  obtain ⟨⟨asset, royalties, amounts⟩, hprep, s₁, h1, s₂, h2, s₃, h3, s₄, h4, s₅, h5, rfl⟩ := h
  obtain ⟨hasset, ham, hget⟩ : s.getKDA (decodedBytes order.collectionID) = .ok (some asset) ∧
      computeSettlementAmounts P fc s order asset.royalties order.currentBid = .ok amounts ∧
      asset.royalties.getD RoyaltiesData.zero = royalties := by
    simp only [prepareSettlement, bind_eq_ok, withCode_eq_ok] at hprep
    obtain ⟨_, hasset, hprep⟩ := hprep
    cases hv6 : fc.fixAuditChangesV6 with
    | true =>
      simp only [hv6, if_true, bind_eq_ok, orError_eq_ok, pure_eq_ok, Prod.mk.injEq] at hprep
      obtain ⟨_, -, _, -, _, rfl, _, ham, _, -, rfl, hget, rfl⟩ := hprep
      exact ⟨hasset, ham, hget⟩
    | false =>
      simp only [hv6, Bool.false_eq_true, if_false, bind_eq_ok, orError_eq_ok,
        pure_eq_ok, Prod.mk.injEq] at hprep
      obtain ⟨_, -, _, rfl, _, ham, rfl, hget, rfl⟩ := hprep
      exact ⟨hasset, ham, hget⟩
  cases hroyalties : asset.royalties with
  | none =>
    simp [computeSettlementAmounts, hroyalties, orError, bind_eq_ok] at ham
  | some found =>
    rw [hroyalties] at ham hget
    cases hget
    refine ⟨asset, found, hasset, hroyalties, fun hfits => ?_⟩
    obtain ⟨hreferral, hr0, hroyalty, hy0, ho0, hsum⟩ := computeSettlementAmounts_shares hbid href
      (hfits.imp_right (And.imp_right Fits.shares)) ham
    have hsplits : fc.fixMarketBuyOverflow = true ∨
        fc.enableSmartContracts = true ∧ Fits order found := by tauto
    exact ⟨_, _, _, ⟨s₁, s₂, s₃, s₄, s₅, .positive _ hr0 h1,
      computeRoyaltiesFixedDeposit_pays hdeposit
        (hsplits.imp_right (And.imp_right Fits.fixed)) h2,
      computeRoyaltiesAmount_pays hy0 (hsplits.imp_right (And.imp_right Fits.market)) h3,
      .positive _ ho0 h4, h5, rfl⟩, ⟨hr0, hreferral⟩, ⟨hy0, hroyalty⟩, ho0, hsum⟩

end Market

end KleverGo
