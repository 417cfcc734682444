import KleverGo.Market.Runs

/-!
# Listings and live orders

`Sell` stores its order under an identifier hashed from the block's random seed, the sender, the
transaction nonce and the contract ID.  Its conflict test refuses a failed read of that key but
not a successful one, so an order that is found is overwritten.  A smart contract that lists two
items in one transaction through the `KleverSell` built-in function computes one identifier
twice.

* `execSell_keeps_iff`: a listing leaves the live orders alone exactly if none of them has its
  identifier.
* `listings_keep_live_orders`: so do the listings of a run, as long as each of them meets that
  condition.
* `kleverSell_overwrites`: two calls in one transaction that do not.
-/

namespace KleverGo.Market

/-! ## The built-in function -/

def MinLenArgumentsSell : Nat := 7

def saturatedBigUint (arg : Bytes) : UInt64 :=
  let value := arg.foldl (fun n b => n * 256 + b.toNat) 0
  if value < 2 ^ 64 then UInt64.ofNat value else UInt64.ofNat (2 ^ 64 - 1)

/-- `Argument.Int64` -/
def argInt64 (arg : Bytes) : Int64 := (saturatedBigUint arg).toInt64

/-- `Argument.Int32` -/
def argInt32 (arg : Bytes) : Int32 :=
  if 2147483647 < saturatedBigUint arg then 2147483647
  else Int32.ofNat (saturatedBigUint arg).toNat

/-- `%d` of an `int64` -/
def formatInt64 (v : Int64) : Bytes :=
  (if v < 0 then [45] else []) ++
    (Nat.toDigits 10 v.toInt.natAbs).map fun c => UInt8.ofNat c.toNat

/-- `getSellContract`: eight arguments are read, and a missing one is empty. -/
def getSellContract (arguments : List Bytes) : Except Err SellContract := do
  reject (arguments.length < MinLenArgumentsSell) .ErrInvalidArguments
  pure
    { marketType := argInt32 (arguments.getD 0 [])
      marketplaceID := some (arguments.getD 1 [])
      assetID := some (arguments.getD 2 [] ++ [sp] ++ formatInt64 (argInt64 (arguments.getD 3 [])))
      currencyID := some (arguments.getD 4 [])
      price := argInt64 (arguments.getD 5 [])
      reservePrice := argInt64 (arguments.getD 6 [])
      endTime := argInt64 (arguments.getD 7 []) }

section
variable (P : Platform) (fc : ForkController)

/-- `kleverSell.ProcessBuiltinFunction`: `Sell` for the calling contract, in the context of the
transaction that runs it. -/
def kleverSell (ctx : KappContext) (s : Chain) (callerAddr : Bytes) (arguments : List Bytes) :
    Except Err Chain := do
  let contract ← getSellContract arguments
  (sell P fc ctx s callerAddr contract).mapError (·.err)

/-- A listing, by a contract of the transaction or by a smart contract it runs. -/
inductive SellRequest where
  | contract (tc : SellContract)
  | builtIn (arguments : List Bytes)

structure SellTx where
  ctx : KappContext
  sender : Bytes
  request : SellRequest

/-- The identifier of the order a listing stores. -/
def SellTx.orderID (tx : SellTx) : Bytes := contractMarketID P tx.ctx tx.sender

def execSell (s : Chain) (tx : SellTx) : Except Err Chain :=
  match tx.request with
  | .contract tc => (sell P fc tx.ctx s tx.sender tc).mapError (·.err)
  | .builtIn arguments => kleverSell P fc tx.ctx s tx.sender arguments

/-- A refused listing changes nothing. -/
def attempt (s : Chain) (tx : SellTx) : Chain := (execSell P fc s tx).toOption.getD s

/-- No unclaimed order is stored under the identifier of the listing. -/
def NoLiveClash (s : Chain) (tx : SellTx) : Prop := ∀ o, ¬ Live s (tx.orderID P) o

/-- Every listing of the run finds no unclaimed order under its identifier. -/
def NoLiveClashes (s : Chain) : List SellTx → Prop
  | [] => True
  | tx :: rest => NoLiveClash P s tx ∧ NoLiveClashes (attempt P fc s tx) rest

end

/-- Every unclaimed order of `s` is stored unchanged in `s'`. -/
def KeepsLive (s s' : Chain) : Prop := ∀ id o, Live s id o → s'.market.orders.lookup id = some o

/-- Every item in escrow is the item of an unclaimed order. -/
def Backed (s : Chain) : Prop :=
  ∀ key, s.market.kdas.lookup key ≠ none → ∃ id o, Live s id o ∧ o.itemKey = key

variable {s s' : Chain}

theorem KeepsLive.live (h : KeepsLive s s') {id : Bytes} {o : MarketOrderData} (ho : Live s id o) :
    Live s' id o := ⟨h id o ho, ho.2⟩

variable {P : Platform} {fc : ForkController}

/-! ## One listing -/

variable {tx : SellTx}

theorem execSell_sell (h : execSell P fc s tx = .ok s') :
    ∃ tc, sell P fc tx.ctx s tx.sender tc = .ok s' := by
  unfold execSell at h
  split at h
  · exact ⟨_, mapError_eq_ok.1 h⟩
  · simp only [kleverSell, bind_eq_ok, mapError_eq_ok] at h
    obtain ⟨tc, -, h⟩ := h
    exact ⟨tc, h⟩

theorem takeDeposit_market {sender : Bytes} {marketFixed : Int64}
    (h : takeDeposit s sender marketFixed = .ok s') : s'.market = s.market := by
  unfold takeDeposit at h
  split at h
  · cases h
    rfl
  · simp only [bind_eq_ok, pure_eq_ok] at h
    obtain ⟨_, -, _, -, rfl⟩ := h
    rfl

/-- What a listing does to the storage of the market: one order and one item of the sender. -/
theorem execSell_market (h : execSell P fc s tx = .ok s') :
    ∃ o data, o.id = tx.orderID P ∧ o.isClaimed = false ∧ s.record tx.sender o.itemKey ≠ none ∧
      s'.market.orders = s.market.orders.insert o.id o ∧
      s'.market.kdas = s.market.kdas.insert o.itemKey data := by
  obtain ⟨tc, h⟩ := execSell_sell h
  obtain ⟨c, n, _, _, m, r, t, rp, s₁, s₂, -, htype, -, -, hescrow, hdeposit, rfl⟩ := sell_cases h
  have howned := escrowItem_owned hescrow
  simp only [escrowItem, bind_eq_ok, pure_eq_ok, withReceipt_eq_ok] at hescrow
  obtain ⟨acc, -, ⟨kdas, data⟩, -, held, hadd, rfl⟩ := hescrow
  obtain rfl := addInternalKDA_spec hadd
  have hmarket := takeDeposit_market hdeposit
  refine ⟨listedOrder fc tx.ctx tx.sender tc (tx.orderID P) m t c n rp r, data, rfl, rfl, howned,
    ?_, ?_⟩
  · simp only [setMarketOrder, hmarket]
    rfl
  · simp only [setMarketOrder, hmarket]
    rfl

theorem execSell_keeps (h : execSell P fc s tx = .ok s') (hclash : NoLiveClash P s tx) :
    KeepsLive s s' := by
  obtain ⟨o, data, hid, -, -, horders, -⟩ := execSell_market h
  intro id o2 ho2
  rw [horders, FMap.lookup_insert_eq, if_neg]
  · exact ho2.1
  · rintro rfl
    exact hclash o2 (hid ▸ ho2)

/-- **A listing leaves the live orders alone exactly if none has its identifier.** -/
theorem execSell_keeps_iff (hi : MarketInv s) (h : execSell P fc s tx = .ok s') :
    KeepsLive s s' ↔ NoLiveClash P s tx := by
  refine ⟨fun hkeeps o2 ho2 => ?_, execSell_keeps h⟩
  obtain ⟨o, data, hid, -, howned, horders, -⟩ := execSell_market h
  -- the overwritten order would be the new one, whose item is still with the sender
  have hsame : o2 = o := by
    have hkept := hkeeps _ o2 ho2
    rw [horders, FMap.lookup_insert_eq, if_pos hid.symm] at hkept
    exact (Option.some.inj hkept).symm
  subst hsame
  have hkey := (hi.live _ o2 ho2).collectionKey
  exact (hi.held _).2 ⟨_, o2, ho2, rfl⟩ (hi.apart _ hkey tx.sender howned)

theorem execSell_backed (h : execSell P fc s tx = .ok s') (hclash : NoLiveClash P s tx)
    (hb : Backed s) : Backed s' := by
  have hkeeps := execSell_keeps h hclash
  obtain ⟨o, data, -, hopen, -, horders, hkdas⟩ := execSell_market h
  intro key hkey
  rw [hkdas, FMap.lookup_insert_eq] at hkey
  split at hkey
  · rename_i he
    refine ⟨o.id, o, ⟨?_, hopen⟩, he.symm⟩
    rw [horders, FMap.lookup_insert_eq, if_pos rfl]
  · obtain ⟨id, o2, ho2, he⟩ := hb key hkey
    exact ⟨id, o2, hkeeps.live ho2, he⟩

/-! ## Runs -/

/-- What a listing without a clash keeps. -/
structure KeepsMarket (s s' : Chain) : Prop where
  live : KeepsLive s s'
  backed : Backed s → Backed s'
  conserved : MarketInv s → MarketInv s' ∧ ∀ x, sp ∉ x → value s' x = value s x

theorem KeepsMarket.refl (s : Chain) : KeepsMarket s s :=
  ⟨fun _ _ ho => ho.1, id, fun hi => ⟨hi, fun _ _ => rfl⟩⟩

theorem KeepsMarket.trans {s₁ s₂ : Chain} (h1 : KeepsMarket s s₁) (h2 : KeepsMarket s₁ s₂) :
    KeepsMarket s s₂ where
  live id o ho := h2.live id o (h1.live.live ho)
  backed := h2.backed ∘ h1.backed
  conserved hi := by
    obtain ⟨hi1, hv1⟩ := h1.conserved hi
    obtain ⟨hi2, hv2⟩ := h2.conserved hi1
    exact ⟨hi2, fun x hx => (hv2 x hx).trans (hv1 x hx)⟩

theorem attempt_keeps (hclash : NoLiveClash P s tx) : KeepsMarket s (attempt P fc s tx) := by
  unfold attempt
  cases h : execSell P fc s tx with
  | error e => exact .refl s
  | ok s' =>
    refine ⟨execSell_keeps h hclash, execSell_backed h hclash, fun hi => ?_⟩
    obtain ⟨tc, hsell⟩ := execSell_sell h
    have hc := sell_spec hi hclash hsell
    exact ⟨hc.inv, hc.value⟩

theorem attempts_keep (txs : List SellTx) (s : Chain) (h : NoLiveClashes P fc s txs) (n : Nat) :
    KeepsMarket s ((txs.take n).foldl (attempt P fc) s) := by
  induction txs generalizing s n with
  | nil => simpa using KeepsMarket.refl s
  | cons tx rest ih =>
    cases n with
    | zero => exact .refl s
    | succ n => exact (attempt_keeps h.1).trans (ih _ h.2 n)

/-- **A listing never replaces a live listing, unless it computes the identifier of one.**  In a
state of the market, a successful listing keeps the unclaimed orders if and only if none of them
is stored under the identifier it computes.  Along every run whose listings meet that condition
no unclaimed order changes, every item in escrow stays the item of an unclaimed order, and so do
the deposits and bids. -/
theorem listings_keep_live_orders (P : Platform) (fc : ForkController) :
    (∀ s s' tx, MarketInv s → execSell P fc s tx = .ok s' →
      (KeepsLive s s' ↔ NoLiveClash P s tx)) ∧
    ∀ s txs, NoLiveClashes P fc s txs → ∀ n,
      KeepsLive s ((txs.take n).foldl (attempt P fc) s) ∧
      (Backed s → Backed ((txs.take n).foldl (attempt P fc) s)) ∧
      (MarketInv s → ∀ x, sp ∉ x → value ((txs.take n).foldl (attempt P fc) s) x = value s x) := by
  refine ⟨fun s s' tx hi h => execSell_keeps_iff hi h, fun s txs h n => ?_⟩
  have hk := attempts_keep txs s h n
  exact ⟨hk.live, hk.backed, fun hi => (hk.conserved hi).2⟩

/-! ## Two listings of one contract -/

/-- The arguments for an auction of `N/nonce`. -/
def sampleSellArguments (nonce : UInt8) : List Bytes :=
  [[1], [9], [78], [nonce], KLVIdentifier, [], [20], [50]]

/-- A contract lists `N/nonce` in a block with the given random seed. -/
def sampleSellTx (nonce : UInt8) (randSeed : Bytes) : SellTx :=
  ⟨⟨10, 1, randSeed, 0, 0⟩, [1], .builtIn (sampleSellArguments nonce)⟩

def sampleListed : Chain := attempt samplePlatform .allActive sampleMarket (sampleSellTx 1 [7])

/-- In two transactions the two listings have identifiers of their own. -/
theorem listings_keep_live_orders_sample :
    NoLiveClashes samplePlatform .allActive sampleMarket [sampleSellTx 1 [7], sampleSellTx 2 [6]] ∧
      ∀ n, KeepsLive sampleMarket
        (([sampleSellTx 1 [7], sampleSellTx 2 [6]].take n).foldl
          (attempt samplePlatform .allActive) sampleMarket) := by
  have hnone : ∀ {s : Chain} {id : Bytes}, s.market.orders.lookup id = none →
      ∀ o, ¬ Live s id o := by
    intro s id hn o ho
    rw [Live, hn] at ho
    cases ho.1
  have hmeets : NoLiveClashes samplePlatform .allActive sampleMarket
      [sampleSellTx 1 [7], sampleSellTx 2 [6]] :=
    ⟨hnone (by decide +kernel), hnone (by decide +kernel), trivial⟩
  exact ⟨hmeets, fun n => ((listings_keep_live_orders samplePlatform .allActive).2 sampleMarket _
    hmeets n).1⟩

/-- The order of the first listing. -/
def sampleOrder : MarketOrderData :=
  listedOrder .allActive ⟨10, 1, [7], 0, 0⟩ [1]
    ⟨1, some [9], some [78, 47, 49], some KLVIdentifier, 0, 20, 50⟩ sampleOrderID
    ⟨[9], [], [3], [3], 500⟩ .Auction [78] [49] 20
    { RoyaltiesData.zero with address := [3], marketPercentage := 1000, marketFixed := 5 }

/-- **Two listings in one transaction**, with an injective hash: both succeed, the second
overwrites the live order of the first, and the first item and its deposit are in the market
without an order. -/
theorem kleverSell_overwrites :
    Function.Injective samplePlatform.hash ∧ MarketStart sampleMarket ∧
      ∃ s₁ s₂, execSell samplePlatform .allActive sampleMarket (sampleSellTx 1 [7]) = .ok s₁ ∧
        execSell samplePlatform .allActive s₁ (sampleSellTx 2 [7]) = .ok s₂ ∧
        Live s₁ sampleOrderID sampleOrder ∧
        s₂.market.orders.lookup sampleOrderID ≠ some sampleOrder ∧
        s₂.market.kdas.lookup sampleOrder.itemKey ≠ none ∧
        (∀ id o, Live s₂ id o → o.itemKey ≠ sampleOrder.itemKey) ∧
        value s₂ KLVIdentifier = value s₁ KLVIdentifier - 5 := by
  refine ⟨fun _ _ h => h, sampleMarket_start, sampleListed,
    attempt samplePlatform .allActive sampleListed (sampleSellTx 2 [7]),
    eq_ok_getD sampleMarket (by decide +kernel),
    eq_ok_getD sampleListed (by decide +kernel),
    ⟨by decide +kernel, by decide +kernel⟩, by decide +kernel, by decide +kernel, ?_,
    by decide +kernel⟩
  rintro id o ⟨hl, -⟩
  have hall : ∀ e ∈ (attempt samplePlatform .allActive sampleListed
      (sampleSellTx 2 [7])).market.orders.entries, e.2.itemKey ≠ sampleOrder.itemKey := by
    decide +kernel
  exact hall ⟨id, o⟩ (FMap.mem_entries_iff.2 hl)

end KleverGo.Market
