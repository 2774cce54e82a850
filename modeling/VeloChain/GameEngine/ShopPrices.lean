import Mathlib.Algebra.Order.Field.Basic
import VeloChain.GameEngine.Shops

/-! Buy and sell prices as the demand changes.
With the demand the buy price rises and the sell price falls, since one is multiplied and the
other divided by the same multiplier. So a shop pays no more than it asks exactly from some
demand on, which differs from item to item.
-/

namespace VeloChain

-----------------------------------------------------------------------------------------
-- Two curves
-----------------------------------------------------------------------------------------

/-- The multiplier at a net demand. -/
def multiplierAt (net : Int) : Rat := max (1 / 2) (min (1 + net * (1 / 50)) 2)

theorem half_le_multiplierAt (net : Int) : 1 / 2 ≤ multiplierAt net := le_max_left _ _

theorem multiplierAt_mono {net net' : Int} (le : net ≤ net')
    : multiplierAt net ≤ multiplierAt net' := by
  have cast : (net : Rat) ≤ net' := Int.cast_le.mpr le
  apply max_le_max_left
  apply min_le_min_right
  linarith

/-- From 25 net sales on the multiplier is the lowest one. -/
theorem multiplierAt_of_le {net : Int} (low : net ≤ -25)
    : multiplierAt net = multiplierAt (-25) := by
  have cast : (net : Rat) ≤ -25 := by exact_mod_cast low
  unfold multiplierAt
  rw [max_eq_left, max_eq_left]
  · norm_num
  · apply (min_le_left _ _).trans
    linarith

/-- The shop pays no more for a unit than it asks. -/
def Solvent (basePrice value : UInt64) (buybackRate : Rat) (net : Int) : Prop :=
  unitPayment value buybackRate (multiplierAt net) ≤ unitCost basePrice (multiplierAt net)

instance (basePrice value : UInt64) (buybackRate : Rat) (net : Int)
    : Decidable (Solvent basePrice value buybackRate net) :=
  inferInstanceAs (Decidable (_ ≤ _))

theorem toNat_asU64 (price : Int) : (asU64 price).toNat = min price.toNat (2 ^ 64 - 1) := by
  rw [asU64, UInt64.toNat_ofNat', Nat.mod_eq_of_lt (by omega)]

theorem asU64_mono {price price' : Int} (le : price ≤ price') : asU64 price ≤ asU64 price' := by
  rw [UInt64.le_iff_toNat_le, toNat_asU64, toNat_asU64]
  omega

theorem toNat_max (left right : UInt64) : (max left right).toNat = max left.toNat right.toNat := by
  change (if left ≤ right then right else left).toNat = _
  split
  next below =>
    have := UInt64.le_iff_toNat_le.mp below
    omega
  next above =>
    have := UInt64.le_iff_toNat_le.not.mp above
    omega

theorem max_mono {price price' : UInt64} (le : price ≤ price') (other : UInt64)
    : max price other ≤ max price' other := by
  rw [UInt64.le_iff_toNat_le] at le ⊢
  rw [toNat_max, toNat_max]
  omega

/-- More demand does not make a shop insolvent. -/
theorem Solvent.mono {basePrice value : UInt64} {buybackRate : Rat} (positive : 0 ≤ buybackRate)
    {net net' : Int} (le : net ≤ net') (solvent : Solvent basePrice value buybackRate net)
    : Solvent basePrice value buybackRate net' := by
  have rises := multiplierAt_mono le
  have above : (0 : Rat) < multiplierAt net :=
    lt_of_lt_of_le (by norm_num) (half_le_multiplierAt net)
  have payment
      : unitPayment value buybackRate (multiplierAt net')
        ≤ unitPayment value buybackRate (multiplierAt net) := by
    apply max_mono
    apply asU64_mono
    apply Int.floor_le_floor
    exact div_le_div_of_nonneg_left (mul_nonneg (Nat.cast_nonneg _) positive) above rises
  have cost : unitCost basePrice (multiplierAt net) ≤ unitCost basePrice (multiplierAt net') := by
    apply asU64_mono
    apply Int.ceil_le_ceil
    exact mul_le_mul_of_nonneg_left rises (Nat.cast_nonneg _)
  exact UInt64.le_trans payment (UInt64.le_trans solvent cost)

/-- Where the curves cross between two demands, a shop is solvent from there on. -/
theorem solvent_iff_of_crossing {basePrice value : UInt64} {buybackRate : Rat}
    (positive : 0 ≤ buybackRate) (least : Int)
    (here : Solvent basePrice value buybackRate least)
    (below : ¬ Solvent basePrice value buybackRate (least - 1)) (net : Int)
    : Solvent basePrice value buybackRate net ↔ least ≤ net := by
  constructor
  · intro solvent
    by_contra low
    exact below (solvent.mono positive (by omega))
  · exact fun le => here.mono positive le

/-- Where a shop is solvent at the lowest multiplier, it is at every demand. -/
theorem solvent_of_lowest {basePrice value : UInt64} {buybackRate : Rat}
    (positive : 0 ≤ buybackRate) (lowest : Solvent basePrice value buybackRate (-25)) (net : Int)
    : Solvent basePrice value buybackRate net := by
  rcases Int.le_total net (-25) with low | high
  · unfold Solvent
    rw [multiplierAt_of_le low]
    exact lowest
  · exact lowest.mono positive high

-----------------------------------------------------------------------------------------
-- What no operation changes
-----------------------------------------------------------------------------------------

/-- What the prices depend on beside the demand: the rate and the listed base prices. -/
def ShopDef.terms (shop : ShopDef) : Rat × List (ItemDefId × UInt64) :=
  (shop.buybackRate, shop.listings.map (fun listing => (listing.itemId, listing.basePrice)))

namespace ShopManager

/-- The same shops on the same terms. -/
def SameTerms (before after : ShopManager) : Prop :=
  ∀ shopId,
    (after.shops.lookup shopId).map ShopDef.terms
      = (before.shops.lookup shopId).map ShopDef.terms

theorem sameTerms_insert {manager : ShopManager} {shopId : ShopId} {old new : ShopDef}
    (found : manager.shops.lookup shopId = some old) (same : new.terms = old.terms)
    : SameTerms manager { shops := manager.shops.insert shopId new } := by
  intro other
  rw [FinMap.lookup_insert_eq]
  split
  next isShop => rw [isShop, found, Option.map_some, Option.map_some, same]
  next => rfl

theorem map_updateListing (itemId : ItemDefId) {f : ShopListing → ShopListing}
    (keeps
      : ∀ listing,
          (f listing).itemId = listing.itemId ∧ (f listing).basePrice = listing.basePrice)
    (listings : List ShopListing)
    : (updateListing itemId f listings).map
          (fun listing => (listing.itemId, listing.basePrice))
      = listings.map (fun listing => (listing.itemId, listing.basePrice)) := by
  induction listings with
  | nil => rfl
  | cons listing rest ih =>
      unfold updateListing
      split
      next => rw [List.map_cons, List.map_cons, (keeps listing).1, (keeps listing).2]
      next => rw [List.map_cons, List.map_cons, ih]

theorem terms_tickShop (currentTick : UInt64) (shop : ShopDef)
    : (tickShop currentTick shop).terms = shop.terms := by
  have restocked (listing : ShopListing)
      : ((restock currentTick listing).itemId, (restock currentTick listing).basePrice)
        = (listing.itemId, listing.basePrice) := by
    unfold restock
    split
    next => split <;> rfl
    next => rfl
  unfold ShopDef.terms tickShop
  rw [List.map_map]
  exact congrArg (Prod.mk shop.buybackRate)
    (List.map_congr_left fun listing _ => restocked listing)

/-- Every operation leaves the terms of every shop as they are. -/
theorem sameTerms_run (registry : ItemRegistry) (manager : ShopManager) (op : ShopOp)
    : SameTerms manager (manager.run registry op) := by
  cases op with
  | buyItem shopId itemId quantity playerGold =>
      unfold run buyItem
      simp only
      split
      next => exact fun _ => rfl
      next shop found =>
        split
        next => exact fun _ => rfl
        next =>
          split
          next => exact fun _ => rfl
          next =>
            split
            next => exact fun _ => rfl
            next =>
              apply sameTerms_insert found
              refine congrArg (Prod.mk shop.buybackRate)
                (map_updateListing itemId ?_ shop.listings)
              exact fun _ => ⟨rfl, rfl⟩
  | sellItem shopId itemId quantity playerItemCount =>
      unfold run sellItem
      simp only
      split
      next => exact fun _ => rfl
      next =>
        split
        next => exact fun _ => rfl
        next shop found =>
          split
          next => exact fun _ => rfl
          next => exact sameTerms_insert found rfl
  | tickShops currentTick =>
      intro shopId
      change ((manager.shops.mapValues (tickShop currentTick)).lookup shopId).map _ = _
      rw [FinMap.lookup_mapValues, Option.map_map]
      congr 1
      exact funext (terms_tickShop currentTick)

/-- By induction on the operations. -/
theorem sameTerms_runAll (registry : ItemRegistry) (manager : ShopManager) (ops : List ShopOp)
    : SameTerms manager (manager.runAll registry ops) := by
  unfold runAll
  induction ops generalizing manager with
  | nil => exact fun _ => rfl
  | cons op rest ih =>
      exact fun shopId => (ih (manager.run registry op) shopId).trans
        (sameTerms_run registry manager op shopId)

/-- The prices of a shop in a state that has the terms of `manager`. -/
theorem prices_of_sameTerms {registry : ItemRegistry} {manager after : ShopManager}
    (same : SameTerms manager after) {shopId : ShopId} {itemId : ItemDefId} {shop : ShopDef}
    {listing : ShopListing} {item : ItemDef} (found : manager.shops.lookup shopId = some shop)
    (listed : findListing itemId shop = some listing)
    (registered : registry.lookup itemId = some item)
    : ∃ current,
        after.shops.lookup shopId = some current
        ∧ after.buyPrice shopId itemId
          = some
              (unitCost listing.basePrice (multiplierAt (current.demandTracker.net itemId)))
        ∧ after.sellPrice shopId itemId registry
          = some
              (unitPayment item.value shop.buybackRate
                (multiplierAt (current.demandTracker.net itemId))) := by
  have terms := same shopId
  rw [found, Option.map_some] at terms
  obtain ⟨current, isThere, sameTerms⟩ := Option.map_eq_some_iff.mp terms
  obtain ⟨sameRate, sameListings⟩ := Prod.mk.inj sameTerms
  have sameFound
      : (findListing itemId current).map (fun listing => (listing.itemId, listing.basePrice))
        = (findListing itemId shop).map (fun listing => (listing.itemId, listing.basePrice)) := by
    have byTerms (listings : List ShopListing)
        : (listings.find? (fun listing => listing.itemId == itemId)).map
              (fun listing => (listing.itemId, listing.basePrice))
          = (listings.map (fun listing => (listing.itemId, listing.basePrice))).find?
              (fun terms => terms.1 == itemId) := by
      rw [List.find?_map]
      rfl
    unfold findListing
    rw [byTerms, byTerms, sameListings]
  rw [listed, Option.map_some] at sameFound
  obtain ⟨currentListing, isListed, samePair⟩ := Option.map_eq_some_iff.mp sameFound
  have samePrice : currentListing.basePrice = listing.basePrice := (Prod.mk.inj samePair).2
  have sameRate : current.buybackRate = shop.buybackRate := sameRate
  refine ⟨current, isThere, ?_, ?_⟩
  · simp only [buyPrice, isThere, isListed, Option.bind_eq_bind, Option.bind_some, samePrice]
    rfl
  · simp only [sellPrice, isThere, registered, Option.bind_eq_bind, Option.bind_some, sameRate]
    rfl

-----------------------------------------------------------------------------------------
-- The built-in shops
-----------------------------------------------------------------------------------------

/-- The items for which the curves cross, with the least net demand at which the shop pays no
more than it asks.
-/
def leastDemands : List (ItemDefId × Int) :=
  [(20, -22), (21, -22), (10, -24), (2, -21), (11, -21), (12, -21)]

/-- A listing of the built-in shops, with the rate of its shop. -/
def builtInListings : List (Rat × ShopListing) :=
  generalStore.listings.map (Prod.mk generalStore.buybackRate)
    ++ armory.listings.map (Prod.mk armory.buybackRate)

/-- An item that is listed with a least demand is one for which the curves cross there. -/
theorem solvent_iff_of_listed {basePrice value : UInt64} {buybackRate : Rat}
    {itemId : ItemDefId} {least : Int} (positive : 0 ≤ buybackRate)
    (only : leastDemands.filter (fun least => least.1 = itemId) = [(itemId, least)])
    (here : Solvent basePrice value buybackRate least)
    (below : ¬ Solvent basePrice value buybackRate (least - 1)) (net : Int)
    : Solvent basePrice value buybackRate net
      ↔ ∀ least ∈ leastDemands, least.1 = itemId → least.2 ≤ net := by
  have listed (other : ItemDefId × Int)
      : other ∈ leastDemands ∧ other.1 = itemId ↔ other = (itemId, least) := by
    have isMember := congrArg (fun items => other ∈ items) only
    simpa only [List.mem_filter, decide_eq_true_iff, List.mem_singleton, eq_iff_iff]
      using isMember
  rw [solvent_iff_of_crossing positive least here below]
  constructor
  · intro le other member isItem
    rw [(listed other).mp ⟨member, isItem⟩]
    exact le
  · intro all
    have isListed := (listed (itemId, least)).mpr rfl
    exact all _ isListed.1 isListed.2

/-- An item that is not listed is one for which the curves do not cross. -/
theorem solvent_iff_of_unlisted {basePrice value : UInt64} {buybackRate : Rat}
    {itemId : ItemDefId} (positive : 0 ≤ buybackRate)
    (unlisted : ∀ least ∈ leastDemands, least.1 ≠ itemId)
    (lowest : Solvent basePrice value buybackRate (-25)) (net : Int)
    : Solvent basePrice value buybackRate net
      ↔ ∀ least ∈ leastDemands, least.1 = itemId → least.2 ≤ net :=
  iff_of_true (solvent_of_lowest positive lowest net)
    fun least member isItem => absurd isItem (unlisted least member)

/-- A built-in shop pays no more for an item than it asks exactly from the least demand on. -/
theorem solvent_iff_leastDemands {terms : Rat × ShopListing} (listed : terms ∈ builtInListings)
    : ∃ item,
        ItemRegistry.defaultRegistry.lookup terms.2.itemId = some item
        ∧ ∀ net,
          Solvent terms.2.basePrice item.value terms.1 net
            ↔ ∀ least ∈ leastDemands, least.1 = terms.2.itemId → least.2 ≤ net := by
  simp only [builtInListings, generalStore, armory, listing, List.map_cons, List.map_nil,
    List.cons_append, List.nil_append, List.mem_cons, List.not_mem_nil, or_false] at listed
  rcases listed with rfl | rfl | rfl | rfl | rfl | rfl | rfl | rfl | rfl
  · refine ⟨{ id := 20, value := 25 }, rfl, ?_⟩
    exact solvent_iff_of_listed (by norm_num) rfl (by decide +kernel) (by decide +kernel)
  · refine ⟨{ id := 21, value := 75 }, rfl, ?_⟩
    exact solvent_iff_of_listed (by norm_num) rfl (by decide +kernel) (by decide +kernel)
  · refine ⟨{ id := 22, value := 5 }, rfl, ?_⟩
    exact solvent_iff_of_unlisted (by norm_num) (by decide) (by decide +kernel)
  · refine ⟨{ id := 1, value := 10 }, rfl, ?_⟩
    exact solvent_iff_of_unlisted (by norm_num) (by decide) (by decide +kernel)
  · refine ⟨{ id := 10, value := 15 }, rfl, ?_⟩
    exact solvent_iff_of_listed (by norm_num) rfl (by decide +kernel) (by decide +kernel)
  · refine ⟨{ id := 2, value := 50 }, rfl, ?_⟩
    exact solvent_iff_of_listed (by norm_num) rfl (by decide +kernel) (by decide +kernel)
  · refine ⟨{ id := 11, value := 80 }, rfl, ?_⟩
    exact solvent_iff_of_listed (by norm_num) rfl (by decide +kernel) (by decide +kernel)
  · refine ⟨{ id := 12, value := 60 }, rfl, ?_⟩
    exact solvent_iff_of_listed (by norm_num) rfl (by decide +kernel) (by decide +kernel)
  · refine ⟨{ id := 30, value := 3 }, rfl, ?_⟩
    exact solvent_iff_of_unlisted (by norm_num) (by decide) (by decide +kernel)

/-- In every state of every run of the built-in shops, the price paid for a listed item does not
exceed the price asked exactly from the least demand of the item on.
-/
theorem noMoneyPump_iff (ops : List ShopOp) {shopId : ShopId} {shop : ShopDef}
    {listing : ShopListing} (found : defaultShops.shops.lookup shopId = some shop)
    (listed : listing ∈ shop.listings)
    : let manager := runAll .defaultRegistry defaultShops ops
      ∃ current buy sell,
        manager.shops.lookup shopId = some current
        ∧ manager.buyPrice shopId listing.itemId = some buy
        ∧ manager.sellPrice shopId listing.itemId .defaultRegistry = some sell
        ∧ (sell ≤ buy
          ↔ ∀ least ∈ leastDemands, least.1 = listing.itemId →
              least.2 ≤ current.demandTracker.net listing.itemId) := by
  have builtIn
      : (shop.buybackRate, listing) ∈ builtInListings
        ∧ findListing listing.itemId shop = some listing := by
    have isShop : shop = generalStore ∨ shop = armory := by
      unfold defaultShops register new at found
      rw [FinMap.lookup_insert_eq, FinMap.lookup_insert_eq] at found
      split at found
      next => exact Or.inr (Option.some.inj found).symm
      next =>
        split at found
        next => exact Or.inl (Option.some.inj found).symm
        next => simp at found
    rcases isShop with rfl | rfl
    · refine ⟨List.mem_append_left _ (List.mem_map_of_mem listed), ?_⟩
      simp only [generalStore, List.mem_cons, List.not_mem_nil, or_false] at listed
      rcases listed with rfl | rfl | rfl | rfl | rfl <;> rfl
    · refine ⟨List.mem_append_right _ (List.mem_map_of_mem listed), ?_⟩
      simp only [armory, List.mem_cons, List.not_mem_nil, or_false] at listed
      rcases listed with rfl | rfl | rfl | rfl <;> rfl
  obtain ⟨item, registered, solvent⟩ := solvent_iff_leastDemands builtIn.1
  obtain ⟨current, isThere, buys, sells⟩ :=
    prices_of_sameTerms (sameTerms_runAll .defaultRegistry defaultShops ops) found builtIn.2
      registered
  exact ⟨current, _, _, isThere, buys, sells, solvent _⟩

/-- The sale of 25 health potions. -/
def potionSale : List ShopOp := [.sellItem 1 20 25 25]

theorem noMoneyPump_iff_potionSale
    : let manager := runAll .defaultRegistry defaultShops potionSale
      ∃ current buy sell,
        manager.shops.lookup 1 = some current
        ∧ manager.buyPrice 1 20 = some buy
        ∧ manager.sellPrice 1 20 .defaultRegistry = some sell
        ∧ (sell ≤ buy
          ↔ ∀ least ∈ leastDemands, least.1 = 20 →
              least.2 ≤ current.demandTracker.net 20) :=
  @noMoneyPump_iff potionSale 1 generalStore (listing 20 30 20 2 100) rfl List.mem_cons_self

/-- After the sale a health potion costs 15, and the shop pays 20 for one. -/
theorem noMoneyPump_fails
    : ¬ ∀ ops shopId shop listing buy sell,
        defaultShops.shops.lookup shopId = some shop → listing ∈ shop.listings
        → (runAll .defaultRegistry defaultShops ops).buyPrice shopId listing.itemId = some buy
        → (runAll .defaultRegistry defaultShops ops).sellPrice shopId listing.itemId
            .defaultRegistry = some sell
        → sell ≤ buy := by
  intro claimed
  have prices := claimed potionSale 1 generalStore (listing 20 30 20 2 100) 15 20 rfl
    List.mem_cons_self (by decide +kernel) (by decide +kernel)
  exact absurd prices (by decide)

end ShopManager

end VeloChain
