import KleverGo.State.Assets

/-!
# Royalties of a transfer

`GetTransferRoyaltyByAmount` of `kapps/kda.go`: a list of tiers says how the royalty of a transfer
grows with its amount.  The loop of `computeNewFlowRoyalty` takes each tier off the amount, breaks
in the tier where the amount ends and charges what lies beyond the last tier at the percentage of
the last tier.

`segments` states the tariff without a loop: the units of the amount between two bounds are charged
at the percentage of their tier.  `getTransferRoyaltyByAmount_eq` shows that the code computes the
sum of the segments, without overflow, and that the royalty is between zero and the amount and
grows with it.
-/

namespace KleverGo

open List Int64

namespace Kda

/-- The loop of `computeNewFlowRoyalty`, at the tiers still to come. -/
def royaltyLoop (P : Platform) (isEnableSmartContractsFork : Bool) :
    List RoyaltyData → Int64 → Int64 → Except Err Int64
  | [], _, royaltySum => pure royaltySum
  | royalty :: rest, amount, royaltySum => do
    let percentage := toI64 royalty.percentage
    if amount < royalty.amount then
      let royaltyCalc ← computePercentageI64 P amount percentage isEnableSmartContractsFork
      pure (royaltySum + royaltyCalc)
    else
      let royaltyCalc ← computePercentageI64 P royalty.amount percentage isEnableSmartContractsFork
      let amount := amount - royalty.amount
      let royaltySum := royaltySum + royaltyCalc
      -- the last iteration charges the rest at its own percentage
      if rest.isEmpty ∧ 0 < amount then
        let royaltyCalc ← computePercentageI64 P amount percentage isEnableSmartContractsFork
        royaltyLoop P isEnableSmartContractsFork rest amount (royaltySum + royaltyCalc)
      else royaltyLoop P isEnableSmartContractsFork rest amount royaltySum

def computeNewFlowRoyalty (P : Platform) (tiers : List RoyaltyData) (amount : Int64)
    (isEnableSmartContractsFork : Bool) : Except Err Int64 :=
  royaltyLoop P isEnableSmartContractsFork tiers amount 0

/-- `computeOldFlowRoyalty`; `last` is the last tier. -/
def computeOldFlowRoyalty (P : Platform) (tiers : List RoyaltyData) (last : RoyaltyData)
    (amount : Int64) (isEnableSmartContractsFork : Bool) : Except Err Int64 :=
  let chosenRoyalty := (tiers.find? fun royalty => ¬ royalty.amount < amount).getD last
  computePercentageI64 P amount (toI64 chosenRoyalty.percentage) isEnableSmartContractsFork

/-- `GetTransferRoyaltyByAmount`; it dereferences the royalties of the asset. -/
def getTransferRoyaltyByAmount (P : Platform) (asset : KDAData) (amount : Int64)
    (isKdaFprFork isEnableSmartContractsFork : Bool) : Except Err Int64 := do
  let royalties ← orError asset.royalties .nilPointer
  let last ← orError royalties.transferPercentage.getLast? .ErrInvalidValue
  if !isKdaFprFork then
    computeOldFlowRoyalty P royalties.transferPercentage last amount isEnableSmartContractsFork
  else computeNewFlowRoyalty P royalties.transferPercentage amount isEnableSmartContractsFork

/-! ## The tariff -/

/-- What `units` are charged at a percentage of ten thousand, rounded down. -/
def charge (units : Int) (percentage : UInt32) : Int := units * percentage.toNat / 10000

/-- The charge of each segment of an amount `a`, from the unit `lo` on: each tier charges the units
between its bounds, and the percentage of the last tier those beyond. -/
def segments (a : Int) : Int → UInt32 → List RoyaltyData → List Int
  | lo, percentage, [] => [charge (a - min a lo) percentage]
  | lo, _, tier :: rest =>
    let hi := lo + tier.amount.toInt
    charge (min a hi - min a lo) tier.percentage :: segments a hi tier.percentage rest

/-- The tiers are within the bounds an update of the royalties checks. -/
abbrev TiersValid (tiers : List RoyaltyData) : Prop :=
  ∀ tier ∈ tiers, 0 < tier.amount.toInt ∧ tier.percentage ≤ HundredPercent

variable {units : Int} {percentage : UInt32}

theorem charge_bounds (hu : 0 ≤ units) (hp : percentage ≤ HundredPercent) :
    0 ≤ charge units percentage ∧ charge units percentage ≤ units := by
  have hp : percentage.toNat ≤ 10000 := UInt32.le_iff_toNat_le.1 hp
  have hlow : 0 ≤ units * percentage.toNat := Int.mul_nonneg hu (by omega)
  have hhigh : units * percentage.toNat ≤ units * 10000 :=
    Int.mul_le_mul_of_nonneg_left (by omega) hu
  unfold charge
  omega

theorem charge_mono {units' : Int} (h : units ≤ units') (percentage : UInt32) :
    charge units percentage ≤ charge units' percentage :=
  Int.ediv_le_ediv (by decide) (Int.mul_le_mul_of_nonneg_right h (by omega))

theorem segments_take (a : Int) : ∀ {tiers : List RoyaltyData} (lo : Int) {percentage : UInt32},
    TiersValid tiers → percentage ≤ HundredPercent → ∀ n,
      0 ≤ ((segments a lo percentage tiers).take n).sum ∧
        ((segments a lo percentage tiers).take n).sum ≤ a - min a lo
  | _, lo, _, _, _, 0 => by simp
  | [], lo, percentage, _, hp, n + 1 => by
    simpa [segments] using charge_bounds (show 0 ≤ a - min a lo by omega) hp
  | tier :: rest, lo, percentage, hv, _, n + 1 => by
    obtain ⟨hamount, hp⟩ := hv tier mem_cons_self
    obtain ⟨hrest0, hrest⟩ := segments_take a (lo + tier.amount.toInt)
      (fun t ht => hv t (mem_cons_of_mem _ ht)) hp n
    obtain ⟨hfirst0, hfirst⟩ := charge_bounds
      (show 0 ≤ min a (lo + tier.amount.toInt) - min a lo by omega) hp
    simp only [segments, take_succ_cons, sum_cons]
    omega

theorem segments_sum (a lo : Int) {tiers : List RoyaltyData} (hv : TiersValid tiers)
    (hp : percentage ≤ HundredPercent) :
    0 ≤ (segments a lo percentage tiers).sum ∧
      (segments a lo percentage tiers).sum ≤ a - min a lo := by
  simpa using segments_take a lo hv hp (segments a lo percentage tiers).length

variable {a : Int}

theorem segments_mono {b : Int} (hab : a ≤ b) :
    ∀ {tiers : List RoyaltyData} (lo : Int) (percentage : UInt32), TiersValid tiers →
      (segments a lo percentage tiers).sum ≤ (segments b lo percentage tiers).sum
  | [], lo, percentage, _ => by
    simpa [segments] using charge_mono (show a - min a lo ≤ b - min b lo by omega) percentage
  | tier :: rest, lo, percentage, hv => by
    obtain ⟨hamount, -⟩ := hv tier mem_cons_self
    have hrest := segments_mono hab (lo + tier.amount.toInt) tier.percentage
      fun t ht => hv t (mem_cons_of_mem _ ht)
    have hfirst := charge_mono (show min a (lo + tier.amount.toInt) - min a lo ≤
      min b (lo + tier.amount.toInt) - min b lo by omega) tier.percentage
    simp only [segments, sum_cons]
    omega

/-! ## The loop -/

variable {P : Platform}

/-- One charge of the loop: it is computed, and adds to the sum without overflow. -/
theorem computePercentageI64_charge {value : Int64} (royaltySum : Int64) (hv : 0 ≤ value.toInt)
    (hp : percentage ≤ HundredPercent) (hsum : 0 ≤ royaltySum.toInt)
    (hlt : royaltySum.toInt + value.toInt < 2 ^ 63) :
    ∃ share, computePercentageI64 P value (toI64 percentage) true = .ok share ∧
      (royaltySum + share).toInt = royaltySum.toInt + charge value.toInt percentage := by
  obtain ⟨hlow, hhigh⟩ := charge_bounds hv hp
  have hcharge : value.toInt * (toI64 percentage).toInt / HundredPercent.toNat =
      charge value.toInt percentage := by
    rw [toInt_toI64]
    rfl
  have hshare : (ofInt (charge value.toInt percentage)).toInt =
      charge value.toInt percentage := toInt_ofInt_of_le (by omega) (by omega)
  refine ⟨ofInt (charge value.toInt percentage), ?_, ?_⟩
  · simp only [computePercentageI64, hcharge, Bool.not_true, Bool.false_eq_true, if_false]
    rw [if_neg (by omega)]
  · rw [Amount.toInt_add_of_lt hsum (by omega) (by omega), hshare]

/-- The loop charges the segments from where it stands: `lo` units are taken off, and the sum
so far is at most these. -/
theorem royaltyLoop_spec (hlt : a < 2 ^ 63) :
    ∀ {rest : List RoyaltyData} {tier : RoyaltyData} {lo : Int} (amount royaltySum : Int64)
      (percentage : UInt32), TiersValid (tier :: rest) → 0 ≤ amount.toInt →
      amount.toInt = a - lo → 0 ≤ royaltySum.toInt → royaltySum.toInt ≤ lo →
      ∃ r, royaltyLoop P true (tier :: rest) amount royaltySum = .ok r ∧
        r.toInt = royaltySum.toInt + (segments a lo percentage (tier :: rest)).sum := by
  intro rest
  induction rest with
  | nil =>
    intro tier lo amount royaltySum percentage hv hamount ha hsum hle
    obtain ⟨hpos, hp⟩ := hv tier mem_cons_self
    simp only [royaltyLoop, segments, sum_cons, sum_nil, lt_iff_toInt_lt]
    split
    · -- the amount ends in the last tier
      obtain ⟨share, hshare, hadd⟩ := computePercentageI64_charge
        (P := P) royaltySum hamount hp hsum (by omega)
      refine ⟨royaltySum + share, by simp [hshare], ?_⟩
      rw [hadd, show min a (lo + tier.amount.toInt) - min a lo = amount.toInt by omega,
        show a - min a (lo + tier.amount.toInt) = 0 by omega]
      simp [charge]
    · obtain ⟨share, hshare, hadd⟩ :=
        computePercentageI64_charge (P := P) royaltySum hpos.le hp hsum (by omega)
      obtain ⟨hlow, hhigh⟩ := charge_bounds hpos.le hp
      have hsub := Amount.toInt_sub hamount hpos.le
      rw [show min a (lo + tier.amount.toInt) - min a lo = tier.amount.toInt by omega,
        show a - min a (lo + tier.amount.toInt) = (amount - tier.amount).toInt by omega]
      simp only [hshare, isEmpty_nil, true_and, toInt_zero]
      by_cases hbeyond : 0 < (amount - tier.amount).toInt
      · obtain ⟨share', hshare', hadd'⟩ := computePercentageI64_charge (P := P)
          (royaltySum + share) hbeyond.le hp (by omega) (by omega)
        refine ⟨royaltySum + share + share', ?_, by omega⟩
        simp only [bind_eq_ok, if_pos hbeyond, hshare', pure_eq_ok]
        exact ⟨_, rfl, _, rfl, rfl⟩
      · refine ⟨royaltySum + share, ?_, ?_⟩
        · simp only [bind_eq_ok, if_neg hbeyond, pure_eq_ok]
          exact ⟨_, rfl, rfl⟩
        · rw [show (amount - tier.amount).toInt = 0 by omega, hadd]
          simp [charge]
  | cons next rest ih =>
    intro tier lo amount royaltySum percentage hv hamount ha hsum hle
    obtain ⟨hpos, hp⟩ := hv tier mem_cons_self
    have hrest : TiersValid (next :: rest) := fun t ht => hv t (mem_cons_of_mem _ ht)
    rw [royaltyLoop, segments, sum_cons]
    simp only [lt_iff_toInt_lt]
    split
    · -- the later segments are empty
      obtain ⟨share, hshare, hadd⟩ := computePercentageI64_charge
        (P := P) royaltySum hamount hp hsum (by omega)
      have htail := segments_sum a (lo + tier.amount.toInt) hrest hp
      refine ⟨royaltySum + share, by simp [hshare], ?_⟩
      rw [hadd, show min a (lo + tier.amount.toInt) - min a lo = amount.toInt by omega]
      omega
    · obtain ⟨share, hshare, hadd⟩ :=
        computePercentageI64_charge (P := P) royaltySum hpos.le hp hsum (by omega)
      obtain ⟨hlow, hhigh⟩ := charge_bounds hpos.le hp
      have hsub := Amount.toInt_sub hamount hpos.le
      obtain ⟨r, hr, hsegments⟩ := ih (amount - tier.amount) (royaltySum + share)
        tier.percentage hrest (by omega)
        (show _ = a - (lo + tier.amount.toInt) by omega) (by omega) (by omega)
      refine ⟨r, by simpa [hshare] using hr, ?_⟩
      rw [hsegments, hadd,
        show min a (lo + tier.amount.toInt) - min a lo = tier.amount.toInt by omega]
      omega

/-- **The royalty of a transfer is the marginal sum of its tiers**: it is computed exactly, is
between zero and the amount, grows with the amount, and no sum on the way is above the amount. -/
theorem getTransferRoyaltyByAmount_eq {asset : KDAData} {royalties : RoyaltiesData} {amount : Int64}
    (hroyalties : asset.royalties = some royalties) (hsome : royalties.transferPercentage ≠ [])
    (hv : TiersValid royalties.transferPercentage) (hamount : 0 ≤ amount.toInt) :
    ∃ r, getTransferRoyaltyByAmount P asset amount true true = .ok r ∧
      r.toInt = (segments amount.toInt 0 0 royalties.transferPercentage).sum ∧
      (0 ≤ r.toInt ∧ r.toInt ≤ amount.toInt) ∧
      (∀ larger r', amount ≤ larger →
        getTransferRoyaltyByAmount P asset larger true true = .ok r' → r ≤ r') ∧
      ∀ n, 0 ≤ ((segments amount.toInt 0 0 royalties.transferPercentage).take n).sum ∧
        ((segments amount.toInt 0 0 royalties.transferPercentage).take n).sum ≤ amount.toInt := by
  obtain ⟨tier, rest, htiers⟩ := exists_cons_of_ne_nil hsome
  have hlast : ∃ last, royalties.transferPercentage.getLast? = some last := by
    exact ⟨_, getLast?_eq_some_getLast hsome⟩
  obtain ⟨last, hlast⟩ := hlast
  have hcode : ∀ value : Int64, getTransferRoyaltyByAmount P asset value true true =
      royaltyLoop P true royalties.transferPercentage value 0 := by
    intro value
    simp only [getTransferRoyaltyByAmount, hroyalties, orError]
    change (do let last ← orError royalties.transferPercentage.getLast? Err.ErrInvalidValue; _) = _
    rw [hlast]
    rfl
  have hrun : ∀ value : Int64, 0 ≤ value.toInt → ∃ r,
      royaltyLoop P true royalties.transferPercentage value 0 = .ok r ∧
        r.toInt = (segments value.toInt 0 0 royalties.transferPercentage).sum := by
    intro value hvalue
    rw [htiers] at hv ⊢
    obtain ⟨r, hr, hsum⟩ := royaltyLoop_spec (P := P) value.toInt_lt value 0 0 hv hvalue
      (sub_zero _).symm (by simp) (by simp)
    exact ⟨r, hr, by simpa using hsum⟩
  obtain ⟨r, hr, hsum⟩ := hrun amount hamount
  have htake := segments_take amount.toInt 0 hv (show (0 : UInt32) ≤ _ by decide)
  have hmin : amount.toInt - min amount.toInt 0 = amount.toInt := by omega
  rw [hmin] at htake
  have hall := segments_sum amount.toInt 0 hv (show (0 : UInt32) ≤ _ by decide)
  refine ⟨r, (hcode amount).trans hr, hsum, by omega, ?_, htake⟩
  intro larger r' hle hr'
  rw [le_iff_toInt_le] at hle
  obtain ⟨r'', hr'', hsum'⟩ := hrun larger (by omega)
  rw [hcode, hr''] at hr'
  cases hr'
  rw [le_iff_toInt_le, hsum, hsum']
  exact segments_mono hle 0 0 hv

/-- A token with tiers of ten units at ten percent and twenty units at five percent. -/
def tieredAsset : KDAData :=
  ⟨.Fungible, [84], [1], [], some { RoyaltiesData.zero with
    transferPercentage := [⟨10, 1000⟩, ⟨20, 500⟩] }, false, false, false, [], 0, 0, 0⟩

/-- Fifty units pay one for the first tier, one for the second and one for the rest. -/
theorem tieredAsset_royalty : ∃ r,
    getTransferRoyaltyByAmount samplePlatform tieredAsset 50 true true = .ok r ∧ r.toInt = 3 := by
  obtain ⟨r, hr, hsum, -⟩ := getTransferRoyaltyByAmount_eq (P := samplePlatform)
    (show tieredAsset.royalties = some _ from rfl) (by decide) (by decide)
    (show 0 ≤ (50 : Int64).toInt by decide)
  exact ⟨r, hr, hsum.trans (by decide)⟩

end Kda

end KleverGo
