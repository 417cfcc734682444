import KleverGo.Market.Escrow
import KleverGo.Kda.Royalties

/-!
# The market invariant

`MarketInv` ties the three places where a market sale keeps its state: the orders, the items in
escrow and the accounts.  It says that an unclaimed order escrows amounts that are not negative
in a currency that can be paid, that the items in escrow are exactly the items of the unclaimed
orders, one order each, and that an item is in one place only.

The module proves that every kind of change a market call makes keeps it: payments (`pays`), a
new bid (`rebid`), closing an order (`close`), a new listing (`list`), a change of a marketplace
and an accepted royalty update.
-/

namespace KleverGo.Market

open UserAccount (assetOf)

/-- `c` is a collection of non-fungible items. -/
def IsCollection (s : Chain) (c : Bytes) : Prop :=
  ∃ a, s.kdas.lookup c = some a ∧ a.assetType = .NonFungible

/-- `key` is the storage key of a collection or of one of its items. -/
def CollectionKey (s : Chain) (key : Bytes) : Prop := ∃ c n, IsCollection s c ∧ key = toKDAKey c n

/-- Balances of `x` are kept apart from items: `x` is no collection and has no separator. -/
def Payable (s : Chain) (x : Bytes) : Prop := sp ∉ x ∧ ¬ IsCollection s x

/-- What holds of a stored order that is not claimed. -/
structure LiveOrder (s : Chain) (o : MarketOrderData) : Prop where
  referral : o.referralPercentage ≤ HundredPercent
  bid : 0 ≤ o.currentBid.toInt
  deposit : 0 ≤ o.royaltiesFixedDeposit.toInt
  bidless : o.currentBidder = [] → o.currentBid.toInt = 0
  currency : o.currentBidder ≠ [] → o.currencyID ≠ [] ∧ Payable s o.currencyID
  item : IsCollection s o.collectionID ∧ isItemNonce o.assetID

/-- An unclaimed order stored under `id`. -/
def Live (s : Chain) (id : Bytes) (o : MarketOrderData) : Prop :=
  s.market.orders.lookup id = some o ∧ o.isClaimed = false

structure MarketInv (s : Chain) : Prop where
  solvent : s.Solvent
  assets : ∀ id a, s.kdas.lookup id = some a → id ≠ [] ∧ sp ∉ id ∧ Kda.MarketBounds a
  klv : ¬ IsCollection s KLVIdentifier
  marketplaces : ∀ id m, s.market.marketplaces.lookup id = some m →
    m.referralPercentage ≤ HundredPercent
  items : ∀ c, IsCollection s c → ∀ address, s.record address (toKDAKey c []) = none
  unique : ∀ key, CollectionKey s key → ∀ a b, s.record a key ≠ none → s.record b key ≠ none →
    a = b
  apart : ∀ key, CollectionKey s key → ∀ a, s.record a key ≠ none →
    s.market.kdas.lookup key = none
  stored : ∀ id o, s.market.orders.lookup id = some o → o.id = id
  live : ∀ id o, Live s id o → LiveOrder s o
  held : ∀ key, s.market.kdas.lookup key ≠ none ↔ ∃ id o, Live s id o ∧ o.itemKey = key
  once : ∀ id id' o o', Live s id o → Live s id' o' → o.itemKey = o'.itemKey → id = id'

/-! ## Keys -/

theorem klv_noSep : sp ∉ KLVIdentifier := by decide

variable {s : Chain}

theorem MarketInv.payable_klv (h : MarketInv s) : Payable s KLVIdentifier :=
  ⟨klv_noSep, h.klv⟩

variable {key : Bytes}

/-- Writing the balance of a payable asset touches no key of a collection. -/
theorem CollectionKey.ne_plain {x : Bytes} (hk : CollectionKey s key) (hx : Payable s x) :
    key ≠ toKDAKey x [] := by
  obtain ⟨c, n, hc, rfl⟩ := hk
  by_cases hn : isItemNonce n
  · exact toKDAKey_item_ne_plain hx.1 hn
  · rw [toKDAKey_of_not_item hn]
    intro h
    exact hx.2 (toKDAKey_plain_injective h ▸ hc)

variable {o : MarketOrderData}

theorem LiveOrder.collectionKey (h : LiveOrder s o) : CollectionKey s o.itemKey :=
  ⟨o.collectionID, o.assetID, h.item.1, rfl⟩

theorem LiveOrder.payable (h : LiveOrder s o) (hb : o.currentBidder ≠ []) :
    Payable s o.currency := by
  obtain ⟨hne, hp⟩ := h.currency hb
  rwa [MarketOrderData.currency_eq hne]

/-! ## States with the same assets and market -/

variable {s' : Chain}

theorem IsCollection.congr (h : s'.kdas = s.kdas) {c : Bytes} :
    IsCollection s' c ↔ IsCollection s c := by
  unfold IsCollection
  rw [h]

theorem CollectionKey.congr (h : s'.kdas = s.kdas) :
    CollectionKey s' key ↔ CollectionKey s key := by
  simp only [CollectionKey, IsCollection.congr h]

theorem LiveOrder.congr (h : s'.kdas = s.kdas) (ho : LiveOrder s o) : LiveOrder s' o := by
  have hc : ∀ c, IsCollection s' c ↔ IsCollection s c := fun c => IsCollection.congr h
  exact ⟨ho.referral, ho.bid, ho.deposit, ho.bidless,
    fun hb => ⟨(ho.currency hb).1, (ho.currency hb).2.1, fun h' => (ho.currency hb).2.2 ((hc _).1 h')⟩,
    (hc _).2 ho.item.1, ho.item.2⟩

variable {xs : Set Bytes} {δ : Bytes → Int}

/-- Payments in payable assets keep the invariant. -/
theorem MarketInv.pays (hi : MarketInv s) (hp : Chain.Pays xs δ s s') (hx : ∀ x ∈ xs, Payable s x) :
    MarketInv s' := by
  have hrec : ∀ a key, CollectionKey s key → s'.record a key = s.record a key :=
    fun a key hk => hp.records a key fun x hxs => hk.ne_plain (hx x hxs)
  have hc : ∀ c, IsCollection s' c ↔ IsCollection s c := fun c => IsCollection.congr hp.kdas
  have hk : ∀ k, CollectionKey s' k ↔ CollectionKey s k := fun k => CollectionKey.congr hp.kdas
  have hl : ∀ id o, Live s' id o ↔ Live s id o := fun id o => by simp only [Live, hp.market]
  constructor
  case solvent => exact hp.solvent hi.solvent
  case assets => rw [hp.kdas]; exact hi.assets
  case klv => rw [hc]; exact hi.klv
  case marketplaces => rw [hp.market]; exact hi.marketplaces
  case items =>
    intro c hcc a
    rw [hc] at hcc
    rw [hrec a _ ⟨c, [], hcc, rfl⟩]
    exact hi.items c hcc a
  case unique =>
    intro key hkey a b ha hb
    rw [hk] at hkey
    rw [hrec _ _ hkey] at ha hb
    exact hi.unique key hkey a b ha hb
  case apart =>
    intro key hkey a ha
    rw [hk] at hkey
    rw [hrec _ _ hkey] at ha
    rw [hp.market]
    exact hi.apart key hkey a ha
  case stored => rw [hp.market]; exact hi.stored
  case live => exact fun id o ho => (hi.live id o ((hl id o).1 ho)).congr hp.kdas
  case held => simpa only [hl, hp.market] using hi.held
  case once => simpa only [hl] using hi.once

/-! ## Storing an order -/

variable {id : Bytes}

/-- The unclaimed orders after an order is stored: the stored one, unless it is claimed, and
those under other identifiers. -/
theorem live_setMarketOrder {o2 : MarketOrderData} :
    Live (setMarketOrder s o) id o2 ↔
      (id = o.id ∧ o2 = o ∧ o.isClaimed = false) ∨ (id ≠ o.id ∧ Live s id o2) := by
  simp only [Live, setMarketOrder, FMap.lookup_insert_eq]
  by_cases h : id = o.id
  · simp only [h, if_true, Option.some.injEq, true_and, ne_eq, not_true_eq_false, false_and,
      or_false]
    constructor
    · rintro ⟨rfl, hc⟩
      exact ⟨rfl, hc⟩
    · rintro ⟨rfl, hc⟩
      exact ⟨rfl, hc⟩
  · simp [h]

theorem stored_setMarketOrder (h : ∀ id o, s.market.orders.lookup id = some o → o.id = id) :
    ∀ id o2, (setMarketOrder s o).market.orders.lookup id = some o2 → o2.id = id := by
  intro id o2 h2
  simp only [setMarketOrder, FMap.lookup_insert_eq] at h2
  split at h2
  · rename_i hid
    cases h2
    exact hid.symm
  · exact h id o2 h2

variable {o' : MarketOrderData}

theorem MarketInv.rebid (hi : MarketInv s) (ho : Live s id o) (hid : o'.id = id)
    (hkey : o'.itemKey = o.itemKey) (hopen : o'.isClaimed = false) (ho' : LiveOrder s o') :
    MarketInv (setMarketOrder s o') := by
  -- every unclaimed order of the new state has the identifier and the item of one of the old
  have hback : ∀ id2 o2, Live (setMarketOrder s o') id2 o2 →
      ∃ o3, Live s id2 o3 ∧ o2.itemKey = o3.itemKey := by
    intro id2 o2 h2
    rcases live_setMarketOrder.1 h2 with ⟨rfl, rfl, _⟩ | ⟨_, h⟩
    · exact ⟨o, hid ▸ ho, hkey⟩
    · exact ⟨o2, h, rfl⟩
  have hforth : ∀ id2 o2, Live s id2 o2 →
      ∃ o3, Live (setMarketOrder s o') id2 o3 ∧ o3.itemKey = o2.itemKey := by
    intro id2 o2 h2
    by_cases he : id2 = o'.id
    · have : o2 = o := Option.some.inj (h2.1.symm.trans (by rw [he, hid]; exact ho.1))
      exact ⟨o', live_setMarketOrder.2 (.inl ⟨he, rfl, hopen⟩), by rw [this, hkey]⟩
    · exact ⟨o2, live_setMarketOrder.2 (.inr ⟨he, h2⟩), rfl⟩
  constructor
  case solvent => exact hi.solvent
  case assets => exact hi.assets
  case klv => exact hi.klv
  case marketplaces => exact hi.marketplaces
  case items => exact hi.items
  case unique => exact hi.unique
  case apart => exact hi.apart
  case stored => exact stored_setMarketOrder hi.stored
  case live =>
    intro id2 o2 h2
    refine LiveOrder.congr (s := s) (by exact rfl) ?_
    rcases live_setMarketOrder.1 h2 with ⟨_, rfl, _⟩ | ⟨_, h⟩
    · exact ho'
    · exact hi.live id2 o2 h
  case held =>
    intro key
    refine (hi.held key).trans ⟨?_, ?_⟩
    · rintro ⟨id2, o2, h2, rfl⟩
      obtain ⟨o3, h3, he⟩ := hforth id2 o2 h2
      exact ⟨id2, o3, h3, he⟩
    · rintro ⟨id2, o2, h2, rfl⟩
      obtain ⟨o3, h3, he⟩ := hback id2 o2 h2
      exact ⟨id2, o3, h3, he.symm⟩
  case once =>
    intro id1 id2 o1 o2 h1 h2 he
    obtain ⟨o3, h3, he3⟩ := hback id1 o1 h1
    obtain ⟨o4, h4, he4⟩ := hback id2 o2 h2
    exact hi.once id1 id2 o3 o4 h3 h4 (he3 ▸ he4 ▸ he)

variable {s1 : Chain}

theorem MarketInv.close {receiver : Bytes} (hi : MarketInv s) (ho : Live s id o) (hid : o'.id = id)
    (hclosed : o'.isClaimed = true) (hx : ∀ x ∈ xs, Payable s x)
    (hr : Releases o.itemKey receiver xs δ s s1) : MarketInv (setMarketOrder s1 o') := by
  have hlo := hi.live id o ho
  have hc : ∀ c, IsCollection (setMarketOrder s1 o') c ↔ IsCollection s c :=
    fun c => IsCollection.congr hr.kdas
  have hk : ∀ k, CollectionKey (setMarketOrder s1 o') k ↔ CollectionKey s k :=
    fun k => CollectionKey.congr hr.kdas
  -- what a user holds afterwards was held before, or is the released item
  have hrec : ∀ a k, CollectionKey s k → s1.record a k ≠ none →
      s.record a k ≠ none ∨ a = receiver ∧ k = o.itemKey :=
    fun a k hkey => hr.records a k fun x hxs => hkey.ne_plain (hx x hxs)
  have hlive : ∀ id2 o2, Live (setMarketOrder s1 o') id2 o2 ↔ id2 ≠ id ∧ Live s id2 o2 := by
    intro id2 o2
    rw [live_setMarketOrder, hid]
    simp only [Live, hr.orders, hclosed, reduceCtorEq, and_false, false_or]
  constructor
  case solvent => exact hr.solvent hi.solvent
  case assets => exact hr.kdas ▸ hi.assets
  case klv => rw [hc]; exact hi.klv
  case marketplaces => exact hr.marketplaces ▸ hi.marketplaces
  case items =>
    intro c hcc a
    rw [hc] at hcc
    by_contra hne
    rcases hrec a _ ⟨c, [], hcc, rfl⟩ hne with h | ⟨_, h⟩
    · exact h (hi.items c hcc a)
    · obtain ⟨kda, hkda, _⟩ := hcc
      exact toKDAKey_item_ne_plain (hi.assets c kda hkda).2.1 hlo.item.2 h.symm
  case unique =>
    intro key hkey a b ha hb
    rw [hk] at hkey
    have hout : ∀ d, key = o.itemKey → s.record d key ≠ none → False := fun d he hd =>
      hr.escrowed (he ▸ hi.apart key hkey d hd)
    rcases hrec a key hkey ha with ha | ⟨ha, he⟩ <;> rcases hrec b key hkey hb with hb | ⟨hb, he'⟩
    · exact hi.unique key hkey a b ha hb
    · exact (hout a he' ha).elim
    · exact (hout b he hb).elim
    · rw [ha, hb]
  case apart =>
    intro key hkey a ha
    rw [hk] at hkey
    change s1.market.kdas.lookup key = none
    rw [hr.held, FMap.lookup_erase_eq]
    split
    · rfl
    · rename_i hne
      rcases hrec a key hkey ha with h | ⟨_, h⟩
      · exact hi.apart key hkey a h
      · exact absurd h hne
  case stored => exact stored_setMarketOrder (hr.orders ▸ hi.stored)
  case live =>
    intro id2 o2 h2
    exact LiveOrder.congr (by exact hr.kdas) (hi.live id2 o2 ((hlive id2 o2).1 h2).2)
  case held =>
    intro key
    change s1.market.kdas.lookup key ≠ none ↔ _
    rw [hr.held, FMap.lookup_erase_eq]
    simp only [hlive]
    by_cases he : key = o.itemKey
    · simp only [he, if_true, ne_eq, not_true_eq_false, false_iff]
      rintro ⟨id2, o2, ⟨hne, h2⟩, hkey⟩
      exact hne (hi.once id2 id o2 o h2 ho hkey)
    simp only [he, if_false]
    refine (hi.held key).trans ⟨?_, ?_⟩
    · rintro ⟨id2, o2, h2, rfl⟩
      refine ⟨id2, o2, ⟨?_, h2⟩, rfl⟩
      rintro rfl
      exact he (congrArg _ (Option.some.inj (h2.1.symm.trans ho.1)))
    · rintro ⟨id2, o2, ⟨_, h2⟩, hkey⟩
      exact ⟨id2, o2, h2, hkey⟩
  case once =>
    intro id1 id2 o1 o2 h1 h2
    exact hi.once id1 id2 o1 o2 ((hlive _ _).1 h1).2 ((hlive _ _).1 h2).2

/-- A listing keeps the invariant when no unclaimed order has its identifier. -/
theorem MarketInv.list {sender : Bytes} (hi : MarketInv s) (hfresh : ∀ o2, ¬ Live s o.id o2)
    (hopen : o.isClaimed = false) (ho : LiveOrder s o) (hx : ∀ x ∈ xs, Payable s x)
    (he : Escrows o.itemKey sender xs δ s s1) : MarketInv (setMarketOrder s1 o) := by
  have hc : ∀ c, IsCollection (setMarketOrder s1 o) c ↔ IsCollection s c :=
    fun c => IsCollection.congr he.kdas
  have hk : ∀ k, CollectionKey (setMarketOrder s1 o) k ↔ CollectionKey s k :=
    fun k => CollectionKey.congr he.kdas
  have hrec : ∀ a k, CollectionKey s k → s1.record a k ≠ none →
      s.record a k ≠ none ∧ ¬ (a = sender ∧ k = o.itemKey) :=
    fun a k hkey => he.records a k fun x hxs => hkey.ne_plain (hx x hxs)
  obtain ⟨data, hheld⟩ := he.held
  have hlive : ∀ id2 o2, Live (setMarketOrder s1 o) id2 o2 ↔
      (id2 = o.id ∧ o2 = o) ∨ Live s id2 o2 := by
    intro id2 o2
    rw [live_setMarketOrder]
    simp only [Live, he.orders, hopen, and_true]
    constructor
    · rintro (h | h)
      · exact .inl h
      · exact .inr h.2
    rintro (h | h)
    · exact .inl h
    · refine .inr ⟨?_, h⟩
      rintro rfl
      exact hfresh o2 h
  -- the listed item was with the seller, so no unclaimed order names it yet
  have hnew : ∀ id2 o2, Live s id2 o2 → o2.itemKey ≠ o.itemKey := fun id2 o2 h2 heq =>
    (hi.held _).2 ⟨id2, o2, h2, heq⟩ (hi.apart _ ho.collectionKey sender he.owned)
  constructor
  case solvent => exact he.solvent hi.solvent
  case assets => exact he.kdas ▸ hi.assets
  case klv => rw [hc]; exact hi.klv
  case marketplaces => exact he.marketplaces ▸ hi.marketplaces
  case items =>
    intro c hcc a
    rw [hc] at hcc
    by_contra hne
    exact (hrec a _ ⟨c, [], hcc, rfl⟩ hne).1 (hi.items c hcc a)
  case unique =>
    intro key hkey a b ha hb
    rw [hk] at hkey
    exact hi.unique key hkey a b (hrec a key hkey ha).1 (hrec b key hkey hb).1
  case apart =>
    intro key hkey a ha
    rw [hk] at hkey
    obtain ⟨ha, hne⟩ := hrec a key hkey ha
    change s1.market.kdas.lookup key = none
    rw [hheld, FMap.lookup_insert_eq, if_neg]
    · exact hi.apart key hkey a ha
    · intro heq
      exact hne ⟨hi.unique key hkey a sender ha (heq ▸ he.owned), heq⟩
  case stored => exact stored_setMarketOrder (he.orders ▸ hi.stored)
  case live =>
    intro id2 o2 h2
    refine LiveOrder.congr (s := s) (by exact he.kdas) ?_
    rcases (hlive id2 o2).1 h2 with ⟨_, rfl⟩ | h
    · exact ho
    · exact hi.live id2 o2 h
  case held =>
    intro key
    change s1.market.kdas.lookup key ≠ none ↔ _
    rw [hheld, FMap.lookup_insert_eq]
    simp only [hlive]
    split
    · rename_i heq
      exact ⟨fun _ => ⟨o.id, o, .inl ⟨rfl, rfl⟩, heq.symm⟩, fun _ => by simp⟩
    rename_i hne
    refine (hi.held key).trans ⟨?_, ?_⟩
    · rintro ⟨id2, o2, h2, hkey⟩
      exact ⟨id2, o2, .inr h2, hkey⟩
    · rintro ⟨id2, o2, ⟨_, rfl⟩ | h2, hkey⟩
      · exact absurd hkey.symm hne
      · exact ⟨id2, o2, h2, hkey⟩
  case once =>
    intro id1 id2 o1 o2 h1 h2 heq
    rw [hlive] at h1 h2
    rcases h1 with ⟨hid1, ho1⟩ | h1 <;> rcases h2 with ⟨hid2, ho2⟩ | h2
    · rw [hid1, hid2]
    · exact absurd (ho1 ▸ heq.symm) (hnew id2 o2 h2)
    · exact absurd (ho2 ▸ heq) (hnew id1 o1 h1)
    · exact hi.once id1 id2 o1 o2 h1 h2 heq

end KleverGo.Market
