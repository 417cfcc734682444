import KleverGo.Market.Conservation

/-!
# Runs of the market

A run is a list of market calls and royalty updates, each with the context of its block and its
sender, executed one after the other; it ends at the first call that is refused.

* `exec_conserves`: what one successful call keeps.
* `market_run_conserves`: **value is conserved and the escrow is exact along every run** that
  starts without orders and never computes an order identifier twice.
-/

namespace KleverGo.Market

open AList

/-- The calls of the market KApp, and the triggers of the KDA KApp that change royalties. -/
inductive MarketCall where
  | sell (tc : SellContract)
  | buy (tc : BuyContract)
  | claim (orderID : Option Bytes)
  | cancelOrder (orderID : Option Bytes)
  | createMarketplace (tc : CreateMarketplaceContract)
  | configMarketplace (tc : ConfigMarketplaceContract)
  | royalties (assetID : Option Bytes) (trigger : RoyaltyTrigger)

/-- A call with the context and the sender it runs for. -/
structure MarketTx where
  ctx : KappContext
  sender : Bytes
  call : MarketCall

section
variable (P : Platform) (fc : ForkController)

def exec (s : Chain) (tx : MarketTx) : Except TxError Chain :=
  match tx.call with
  | .sell tc => sell P fc tx.ctx s tx.sender tc
  | .buy tc => buy P fc tx.ctx s tx.sender tc
  | .claim orderID => claim P fc tx.ctx s tx.sender orderID
  | .cancelOrder orderID => cancelOrder fc tx.ctx s tx.sender orderID
  | .createMarketplace tc => createMarketplace P tx.ctx s tx.sender tc
  | .configMarketplace tc => configMarketplace P fc s tx.sender tc
  | .royalties assetID trigger => Kda.royaltyTrigger P fc s tx.sender assetID trigger

def run (s : Chain) (txs : List MarketTx) : Except TxError Chain := txs.foldlM (exec P fc) s

/-- The order identifiers a call computes. -/
def MarketTx.listed (tx : MarketTx) : List Bytes :=
  match tx.call with
  | .sell _ => [contractMarketID P tx.ctx tx.sender]
  | _ => []

end

/-- A state in which the market has not been used.  Besides, it holds what the other KApps
guarantee: balances are not negative, identifiers of assets contain no separator, royalties and
referral shares of the market are at most one hundred percent, and an item has one holder and a
nonce. -/
structure MarketStart (s : Chain) : Prop where
  solvent : s.Solvent
  assets : ∀ id a, s.kdas.lookup id = some a → id ≠ [] ∧ sp ∉ id ∧ Kda.MarketBounds a
  klv : ¬ IsCollection s KLVIdentifier
  marketplaces : ∀ id m, s.market.marketplaces.lookup id = some m →
    m.referralPercentage ≤ HundredPercent
  items : ∀ c, IsCollection s c → ∀ address, s.record address (toKDAKey c []) = none
  unique : ∀ key, CollectionKey s key → ∀ a b, s.record a key ≠ none → s.record b key ≠ none →
    a = b
  noOrders : s.market.orders = ∅
  noItems : s.market.kdas = ∅

/-- `x` is KLV or a registered fungible asset. -/
def Fungible (s : Chain) (x : Bytes) : Prop :=
  x = KLVIdentifier ∨ ∃ a, s.kdas.lookup x = some a ∧ a.assetType = .Fungible

theorem MarketStart.not_live {s : Chain} (h : MarketStart s) (id : Bytes) (o : MarketOrderData) :
    ¬ Live s id o := by
  rintro ⟨hl, -⟩
  rw [h.noOrders, lookup_empty] at hl
  cases hl

theorem MarketStart.inv {s : Chain} (h : MarketStart s) : MarketInv s where
  solvent := h.solvent
  assets := h.assets
  klv := h.klv
  marketplaces := h.marketplaces
  items := h.items
  unique := h.unique
  apart key _ a _ := by rw [h.noItems, lookup_empty]
  stored id o ho := by
    rw [h.noOrders, lookup_empty] at ho
    cases ho
  live id o ho := absurd ho (h.not_live id o)
  held key := by
    rw [h.noItems, lookup_empty]
    refine ⟨fun hne => absurd rfl hne, ?_⟩
    rintro ⟨id, o, ho, -⟩
    exact absurd ho (h.not_live id o)
  once id id' o o' ho := absurd ho (h.not_live id o)

theorem MarketStart.noSep {s : Chain} (h : MarketStart s) {x : Bytes} (hx : Fungible s x) :
    sp ∉ x := by
  rcases hx with rfl | ⟨a, ha, -⟩
  · exact klv_noSep
  · exact (h.assets x a ha).2.1

variable {P : Platform}

/-- **One successful call** under new identifiers. -/
theorem exec_conserves {s s' : Chain} {tx : MarketTx} (hi : MarketInv s)
    (hfresh : ∀ id ∈ tx.listed P, s.market.orders.lookup id = none)
    (h : exec P .allActive s tx = .ok s') : Conserves (tx.listed P) s s' := by
  unfold exec at h
  unfold MarketTx.listed at hfresh ⊢
  cases hc : tx.call with
  | sell tc =>
    simp only [hc] at h hfresh ⊢
    refine sell_spec hi (fun o ho => ?_) h
    rw [Live, hfresh _ (List.mem_singleton.2 rfl)] at ho
    cases ho.1
  | buy tc => simp only [hc] at h; exact buy_spec hi h
  | claim orderID => simp only [hc] at h; exact claim_spec hi h
  | cancelOrder orderID => simp only [hc] at h; exact cancelOrder_spec hi h
  | createMarketplace tc => simp only [hc] at h; exact createMarketplace_spec hi h
  | configMarketplace tc => simp only [hc] at h; exact configMarketplace_spec hi h
  | royalties assetID trigger => simp only [hc] at h; exact royaltyTrigger_spec hi h

/-- A run whose listings have identifiers of their own keeps the invariant and the value. -/
theorem run_conserves {s s' : Chain} {txs : List MarketTx} (hi : MarketInv s)
    (hfresh : ∀ id ∈ txs.flatMap (·.listed P), s.market.orders.lookup id = none)
    (hids : (txs.flatMap (·.listed P)).Nodup) (h : run P .allActive s txs = .ok s') :
    MarketInv s' ∧ ∀ x, sp ∉ x → value s' x = value s x := by
  unfold run at h
  -- what is kept also tells the identifiers of the listings still to come from those in use
  have hrun := foldlM_rule
    (P := fun rest s1 => MarketInv s1 ∧ (∀ x, sp ∉ x → value s1 x = value s x) ∧
      (∀ id ∈ rest.flatMap (·.listed P), s1.market.orders.lookup id = none) ∧
      (rest.flatMap (·.listed P)).Nodup)
    ?_ txs s s' ⟨hi, fun _ _ => rfl, hfresh, hids⟩ h
  · exact ⟨hrun.1, hrun.2.1⟩
  rintro s1 tx rest s2 ⟨hi1, hval, hnew, hnodup⟩ hstep
  rw [List.flatMap_cons] at hnew hnodup
  obtain ⟨-, hrest, hdisj⟩ := List.nodup_append.1 hnodup
  have hc := exec_conserves hi1 (fun id hid => hnew id (List.mem_append_left _ hid)) hstep
  refine ⟨hc.inv, fun x hx => (hc.value x hx).trans (hval x hx), fun id hid => ?_, hrest⟩
  refine hc.known id (fun hl => ?_) (hnew id (List.mem_append_right _ hid))
  exact hdisj id hl id hid rfl

/-! ## A sample market

A seller with the items `N/1` and `N/2` of a collection with royalties, a buyer, and a
marketplace with a referral share. -/

def sampleItem : UserKDA := ⟨1, 0, none, none, [], []⟩

def sampleAsset (assetType : AssetType) (id : Bytes) (royalties : Option RoyaltiesData) : KDAData :=
  ⟨assetType, id, [3], [], royalties, false, false, false, [], 0, 0, 0⟩

def sampleMarket : Chain where
  users := ((∅ : FMap Bytes UserAccount).insert [2] ⟨100, 0, ∅⟩).insert [1]
    ⟨100, 0, ((∅ : FMap Bytes UserKDA).insert (toKDAKey [78] [50]) sampleItem).insert
      (toKDAKey [78] [49]) sampleItem⟩
  kdas := ((∅ : FMap Bytes KDAData).insert [78] (sampleAsset .NonFungible [78] (some
      { RoyaltiesData.zero with address := [3], marketPercentage := 1000, marketFixed := 5 }))).insert
    KLVIdentifier (sampleAsset .Fungible KLVIdentifier none)
  market := ⟨∅, (∅ : FMap Bytes Marketplace).insert [9] ⟨[9], [], [3], [3], 500⟩, ∅⟩

/-- An auction of `N/nonce` with reserve price 20. -/
def sampleListing (nonce : Bytes) : SellContract :=
  ⟨1, some [9], some ([78] ++ [sp] ++ nonce), none, 0, 20, 50⟩

def sampleOrderID : Bytes := contractMarketID samplePlatform ⟨10, 1, [7], 0, 0⟩ [1]

/-- Both items are listed; the first is bid for and, once expired, claimed. -/
def sampleTxs : List MarketTx :=
  [⟨⟨10, 1, [7], 0, 0⟩, [1], .sell (sampleListing [49])⟩,
    ⟨⟨20, 1, [8], 0, 0⟩, [2], .buy ⟨some sampleOrderID, none, 40⟩⟩,
    ⟨⟨30, 1, [6], 0, 0⟩, [1], .sell (sampleListing [50])⟩,
    ⟨⟨60, 1, [8], 0, 0⟩, [2], .claim (some sampleOrderID)⟩]

theorem sampleMarket_collection {c : Bytes} (h : IsCollection sampleMarket c) : c = [78] := by
  obtain ⟨a, ha, htype⟩ := h
  simp only [sampleMarket, FMap.lookup_insert_eq, lookup_empty] at ha
  split at ha
  · cases ha
    cases htype
  · split at ha
    · assumption
    · cases ha

theorem sampleMarket_start : MarketStart sampleMarket where
  solvent address a ha x _ := by
    simp only [sampleMarket, FMap.lookup_insert_eq, lookup_empty] at ha
    simp only [UserAccount.getBalance, UserAccount.getUserKDA]
    split at ha
    · cases ha
      simp only [FMap.lookup_insert_eq, lookup_empty]
      split_ifs <;> decide
    split at ha
    · cases ha
      simp only [lookup_empty]
      split_ifs <;> decide
    · cases ha
  assets id a ha := by
    simp only [sampleMarket, FMap.lookup_insert_eq, lookup_empty] at ha
    split at ha
    · rename_i hid
      cases ha
      exact ⟨by rw [hid]; decide, by rw [hid]; decide, fun h => by cases h⟩
    split at ha
    · rename_i hid
      cases ha
      refine ⟨by rw [hid]; decide, by rw [hid]; decide, fun _ r hr => ?_⟩
      cases hr
      decide
    · cases ha
  klv h := absurd (sampleMarket_collection h) (by decide)
  marketplaces id m hm := by
    simp only [sampleMarket, FMap.lookup_insert_eq, lookup_empty] at hm
    split at hm
    · cases hm
      decide
    · cases hm
  items c hc address := by
    rw [sampleMarket_collection hc]
    simp only [Chain.record, sampleMarket, FMap.lookup_insert_eq, lookup_empty]
    split_ifs <;> decide
  unique key _ a b ha hb := by
    have hseller : ∀ a, sampleMarket.record a key ≠ none → a = [1] := by
      intro a ha
      simp only [Chain.record, sampleMarket, FMap.lookup_insert_eq, lookup_empty] at ha
      split_ifs at ha with h1 h2
      · exact h1
      · simp [lookup_empty] at ha
      · simp at ha
    rw [hseller a ha, hseller b hb]
  noOrders := rfl
  noItems := rfl

theorem sampleTxs_run : (run samplePlatform .allActive sampleMarket sampleTxs).isOk = true := by
  decide +kernel

/-! ## The run theorem -/

/-- **Conservation of value in the market.**  Along every run from an unused market, with pairwise
distinct order identifiers, the balances of a fungible asset and its escrow add up to the same
amount, the items in escrow are the items of the unclaimed orders, and no two of these have the
same item. -/
theorem market_run_conserves {s s' : Chain} {txs : List MarketTx} (hs : MarketStart s)
    (hids : (txs.flatMap (·.listed P)).Nodup) (h : run P .allActive s txs = .ok s') :
    (∀ x, Fungible s x → s'.total x + escrowTotal s' x = s.total x + escrowTotal s x) ∧
      (∀ key, s'.market.kdas.lookup key ≠ none ↔ ∃ id o, Live s' id o ∧ o.itemKey = key) ∧
      ∀ id id' o o', Live s' id o → Live s' id' o' → o.itemKey = o'.itemKey → id = id' := by
  have hfresh : ∀ id ∈ txs.flatMap (·.listed P), s.market.orders.lookup id = none := by
    intro id _
    rw [hs.noOrders, lookup_empty]
  obtain ⟨hi, hval⟩ := run_conserves hs.inv hfresh hids h
  exact ⟨fun x hx => hval x (hs.noSep hx), hi.held, hi.once⟩

theorem market_run_conserves_sample :
    ∃ s', run samplePlatform .allActive sampleMarket sampleTxs = .ok s' ∧
      (∀ x, Fungible sampleMarket x → s'.total x + escrowTotal s' x =
        sampleMarket.total x + escrowTotal sampleMarket x) ∧
      (∀ key, s'.market.kdas.lookup key ≠ none ↔ ∃ id o, Live s' id o ∧ o.itemKey = key) ∧
      ∀ id id' o o', Live s' id o → Live s' id' o' → o.itemKey = o'.itemKey → id = id' := by
  have h := eq_ok_getD sampleMarket sampleTxs_run
  exact ⟨_, h, market_run_conserves sampleMarket_start (by decide +kernel) h⟩

end KleverGo.Market
