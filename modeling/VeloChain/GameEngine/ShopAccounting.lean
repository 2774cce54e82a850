import VeloChain.GameEngine.Shops
import VeloChain.Lib.CallTrace

/-! Shop accounting: what is charged, paid, taken from the stock and restocked.
The arithmetic of prices is left open here; the shops are the ones that count with rational
numbers.
-/

namespace VeloChain

/-- The arithmetic of prices: the multiplier of an item, what a unit costs, and what the shop
pays for one.
-/
structure Pricing where
  Multiplier : Type
  priceMultiplier : ItemDefId → DemandTracker → Multiplier
  unitCost : UInt64 → Multiplier → UInt64
  unitPayment : UInt64 → Rat → Multiplier → UInt64

/-- Prices in rational numbers. -/
def Pricing.rational : Pricing :=
  { Multiplier := Rat
    priceMultiplier := DemandTracker.priceMultiplier
    unitCost := VeloChain.unitCost
    unitPayment := VeloChain.unitPayment }

namespace Pricing

open ShopManager

variable (pricing : Pricing)

/-- Get the current buy price for an item in a shop. -/
def buyPrice (shopId : ShopId) (itemId : ItemDefId) (manager : ShopManager) : Option UInt64 := do
  let shop ← manager.shops.lookup shopId
  let listing ← findListing itemId shop
  some (pricing.unitCost listing.basePrice (pricing.priceMultiplier itemId shop.demandTracker))

/-- Get the sell price for an item at a shop. -/
def sellPrice (shopId : ShopId) (itemId : ItemDefId) (registry : ItemRegistry)
    (manager : ShopManager) : Option UInt64 := do
  let shop ← manager.shops.lookup shopId
  let item ← registry.lookup itemId
  some
    (pricing.unitPayment item.value shop.buybackRate
      (pricing.priceMultiplier itemId shop.demandTracker))

/-- Buy an item from a shop. -/
def buyItem (shopId : ShopId) (itemId : ItemDefId) (quantity : UInt32) (playerGold : UInt64)
    (manager : ShopManager) : ShopResult × ShopManager :=
  match manager.shops.lookup shopId with
  | none => (.error (.shopNotFound shopId), manager)
  | some shop =>
      match findListing itemId shop with
      | none => (.error (.itemNotAvailable itemId), manager)
      | some listing =>
          if lacksStock listing.stock quantity then
            (.error (.outOfStock itemId (listing.stock.getD 0) quantity), manager)
          else
            let totalCost :=
              pricing.unitCost listing.basePrice
                  (pricing.priceMultiplier itemId shop.demandTracker)
                * quantity.toUInt64
            if playerGold < totalCost then
              (.error (.insufficientGold totalCost playerGold), manager)
            else
              (.bought itemId quantity totalCost,
                { shops :=
                    manager.shops.insert shopId
                      { shop with
                        listings :=
                          updateListing itemId
                            (fun listing =>
                              { listing with stock := listing.stock.map (· - quantity) })
                            shop.listings
                        demandTracker := shop.demandTracker.recordBuy itemId quantity } })

/-- Sell an item to a shop. -/
def sellItem (shopId : ShopId) (itemId : ItemDefId) (quantity playerItemCount : UInt32)
    (registry : ItemRegistry) (manager : ShopManager) : ShopResult × ShopManager :=
  match registry.lookup itemId with
  | none => (.error (.cannotSellItem itemId), manager)
  | some item =>
      match manager.shops.lookup shopId with
      | none => (.error (.shopNotFound shopId), manager)
      | some shop =>
          if playerItemCount < quantity then
            (.error (.insufficientItems itemId quantity playerItemCount), manager)
          else
            let totalEarned :=
              pricing.unitPayment item.value shop.buybackRate
                  (pricing.priceMultiplier itemId shop.demandTracker)
                * quantity.toUInt64
            (.sold itemId quantity totalEarned,
              { shops :=
                  manager.shops.insert shopId
                    { shop with
                      demandTracker := shop.demandTracker.recordSell itemId quantity } })

/-- One operation; a tick gives no result. -/
def call (registry : ItemRegistry) (op : ShopOp) (manager : ShopManager)
    : Option (Option ShopResult × ShopManager) :=
  match op with
  | .buyItem shopId itemId quantity playerGold =>
      let (result, manager) := pricing.buyItem shopId itemId quantity playerGold manager
      some (some result, manager)
  | .sellItem shopId itemId quantity playerItemCount =>
      let (result, manager) :=
        pricing.sellItem shopId itemId quantity playerItemCount registry manager
      some (some result, manager)
  | .tickShops currentTick => some (none, manager.tickShops currentTick)

/-- The shops are those with prices in rational numbers. -/
theorem rational_operations (registry : ItemRegistry) (op : ShopOp) (manager : ShopManager)
    : (rational.buyPrice = ShopManager.buyPrice
        ∧ rational.sellPrice = ShopManager.sellPrice
        ∧ rational.buyItem = ShopManager.buyItem
        ∧ rational.sellItem = ShopManager.sellItem)
      ∧ (rational.call registry op manager).map Prod.snd = some (manager.run registry op) := by
  refine ⟨⟨rfl, rfl, rfl, rfl⟩, ?_⟩
  cases op <;> rfl

end Pricing

-----------------------------------------------------------------------------------------
-- Stocks
-----------------------------------------------------------------------------------------

namespace ShopManager

/-- Where the listing of an item is. -/
def listingIndex (shopId : ShopId) (itemId : ItemDefId) (manager : ShopManager) : Option Nat := do
  let shop ← manager.shops.lookup shopId
  shop.listings.findIdx? (fun listing => listing.itemId == itemId)

/-- A listing, by its shop and its position there. -/
def listingAt (shopId : ShopId) (index : Nat) (manager : ShopManager) : Option ShopListing := do
  let shop ← manager.shops.lookup shopId
  shop.listings[index]?

/-- No limited stock is above its maximum. -/
def WithinMax (manager : ShopManager) : Prop :=
  ∀ shopId index listing, manager.listingAt shopId index = some listing →
    ∀ stock maxStock, listing.stock = some stock → listing.maxStock = some maxStock →
      stock ≤ maxStock

/-- The interval since a listing was restocked is over. -/
def RestockDue (currentTick : UInt64) (listing : ShopListing) : Prop :=
  listing.restockInterval > 0
    ∧ currentTick ≥ listing.lastRestockTick + listing.restockInterval.toUInt64

instance (currentTick : UInt64) (listing : ShopListing)
    : Decidable (RestockDue currentTick listing) :=
  inferInstanceAs (Decidable (_ ∧ _))

/-- How many units a tick brings to a listing. -/
def restockUnits (currentTick : UInt64) (listing : ShopListing) : Nat :=
  match listing.stock, listing.maxStock with
  | some stock, some maxStock =>
      if RestockDue currentTick listing then
        min listing.restockRate.toNat (maxStock.toNat - stock.toNat)
      else 0
  | _, _ => 0

variable {manager : ShopManager} {shopId : ShopId} {itemId : ItemDefId}

theorem getElem?_updateListing (itemId : ItemDefId) (f : ShopListing → ShopListing)
    (listings : List ShopListing) (index : Nat)
    : (updateListing itemId f listings)[index]?
      = if listings.findIdx? (fun listing => listing.itemId == itemId) = some index then
          listings[index]?.map f
        else listings[index]? := by
  induction listings generalizing index with
  | nil => simp [updateListing]
  | cons listing rest ih =>
      rw [updateListing, List.findIdx?_cons]
      cases listing.itemId == itemId with
      | true => cases index <;> simp
      | false =>
          cases index with
          | zero => simp
          | succ index => simp [ih]

/-- The listing of an item is the one at its index. -/
theorem findListing_eq_some_iff {shop : ShopDef} {listing : ShopListing}
    (found : manager.shops.lookup shopId = some shop)
    : findListing itemId shop = some listing
      ↔ ∃ index,
          manager.listingIndex shopId itemId = some index
          ∧ manager.listingAt shopId index = some listing := by
  simp only [listingIndex, listingAt, found, Option.bind_eq_bind, Option.bind_some, findListing]
  induction shop.listings with
  | nil => simp
  | cons first rest ih =>
      rw [List.find?_cons, List.findIdx?_cons]
      cases first.itemId == itemId with
      | true => simp
      | false => simp [ih]

theorem listingAt_insert (shopId other : ShopId) (shop : ShopDef) (index : Nat)
    (manager : ShopManager)
    : listingAt other index { shops := manager.shops.insert shopId shop }
      = if other = shopId then shop.listings[index]? else manager.listingAt other index := by
  simp only [listingAt, FinMap.lookup_insert_eq, Option.bind_eq_bind]
  split <;> rfl

/-- A change of the first listing of an item. -/
theorem listingAt_updateListing {shop : ShopDef} {tracker : DemandTracker}
    (found : manager.shops.lookup shopId = some shop) (f : ShopListing → ShopListing)
    (other : ShopId) (index : Nat)
    : listingAt other index
          { shops :=
              manager.shops.insert shopId
                { shop with
                  listings := updateListing itemId f shop.listings
                  demandTracker := tracker } }
      = if other = shopId ∧ manager.listingIndex shopId itemId = some index then
          (manager.listingAt other index).map f
        else manager.listingAt other index := by
  rw [listingAt_insert, getElem?_updateListing]
  by_cases same : other = shopId
  · subst same
    simp only [listingIndex, listingAt, found, Option.bind_eq_bind, Option.bind_some, if_true,
      true_and]
  · rw [if_neg same, if_neg fun both => same both.1]

theorem listingAt_tickShops (currentTick : UInt64) (other : ShopId) (index : Nat)
    (manager : ShopManager)
    : (manager.tickShops currentTick).listingAt other index
      = (manager.listingAt other index).map (restock currentTick) := by
  simp only [listingAt, tickShops, FinMap.lookup_mapValues]
  cases manager.shops.lookup other with
  | none => rfl
  | some shop => simp [tickShop]

/-- A tick keeps the limits, and adds the units that it brings where they fit. -/
theorem stock_restock {currentTick : UInt64} {listing : ShopListing} {stock : UInt32}
    (limited : listing.stock = some stock)
    (within : ∀ maxStock, listing.maxStock = some maxStock → stock ≤ maxStock)
    (fits
      : ∀ maxStock, listing.maxStock = some maxStock → stock < maxStock →
          RestockDue currentTick listing → stock.toNat + listing.restockRate.toNat < 2 ^ 32)
    : ∃ left,
        (restock currentTick listing).stock = some left
        ∧ left.toNat = stock.toNat + restockUnits currentTick listing
        ∧ (restock currentTick listing).maxStock = listing.maxStock
        ∧ ∀ maxStock, listing.maxStock = some maxStock → left ≤ maxStock := by
  unfold restock restockUnits
  cases isMax : listing.maxStock with
  | none => exact ⟨stock, by simp [limited], by simp [limited], by simp [limited, isMax], nofun⟩
  | some maxStock =>
      have below := UInt32.le_iff_toNat_le.mp (within maxStock isMax)
      simp only [limited]
      by_cases due : RestockDue currentTick listing
      · rw [if_pos due]
        by_cases less : stock < maxStock
        · have gap := UInt32.lt_iff_toNat_lt.mp less
          have sum : (stock + listing.restockRate).toNat
              = stock.toNat + listing.restockRate.toNat := by
            rw [UInt32.toNat_add, Nat.mod_eq_of_lt (fits maxStock isMax less due)]
          rw [if_pos ⟨less, due⟩]
          refine ⟨_, rfl, ?_, rfl, fun other isOther => ?_⟩
          · rw [UInt32.toNat_min, sum]
            omega
          · obtain rfl := Option.some.inj isOther
            exact UInt32.le_iff_toNat_le.mpr (by rw [UInt32.toNat_min]; omega)
        · have full := UInt32.lt_iff_toNat_lt.not.mp less
          rw [if_neg fun all => less all.1]
          refine ⟨stock, limited, by omega, isMax, fun other isOther => ?_⟩
          exact within other (isMax.trans isOther)
      · rw [if_neg due, if_neg fun all => due all.2]
        exact ⟨stock, limited, rfl, isMax, fun other isOther => within other (isMax.trans isOther)⟩

end ShopManager

-----------------------------------------------------------------------------------------
-- One call
-----------------------------------------------------------------------------------------

/-- A call to the shops that has returned. -/
abbrev ShopTurn := ReturnedCall ShopManager ShopOp (Option ShopResult)

namespace ShopTurn

/-- How many units a call has taken from a listing. -/
def boughtUnits (shopId : ShopId) (index : Nat) (turn : ShopTurn) : Nat :=
  match turn.op, turn.reply with
  | .buyItem shopId' itemId _ _, some (.bought _ quantity _) =>
      if shopId = shopId' ∧ turn.before.listingIndex shopId' itemId = some index then
        quantity.toNat
      else 0
  | _, _ => 0

/-- How many units a call has brought to a listing. -/
def restockedUnits (shopId : ShopId) (index : Nat) (turn : ShopTurn) : Nat :=
  match turn.op with
  | .tickShops currentTick =>
      ((turn.before.listingAt shopId index).map
        (ShopManager.restockUnits currentTick)).getD 0
  | _ => 0

end ShopTurn

namespace Pricing

open ShopManager

/-- No total and no restocked quantity overflows. -/
def Fits (pricing : Pricing) (registry : ItemRegistry) (turn : ShopTurn) : Prop :=
  match turn.op with
  | .buyItem shopId itemId quantity _ =>
      ∀ price, pricing.buyPrice shopId itemId turn.before = some price →
        quantity.toNat * price.toNat < 2 ^ 64
  | .sellItem shopId itemId quantity _ =>
      ∀ price, pricing.sellPrice shopId itemId registry turn.before = some price →
        quantity.toNat * price.toNat < 2 ^ 64
  | .tickShops currentTick =>
      ∀ shopId index listing, turn.before.listingAt shopId index = some listing →
        ∀ stock, listing.stock = some stock →
        ∀ maxStock, listing.maxStock = some maxStock → stock < maxStock →
          RestockDue currentTick listing → stock.toNat + listing.restockRate.toNat < 2 ^ 32

/-- A purchase charges its quantity at the buy price found and takes it from the stock, a sale
pays its quantity at the sell price found, and what fails changes nothing.
-/
def Charged (pricing : Pricing) (registry : ItemRegistry) (turn : ShopTurn) : Prop :=
  match turn.op with
  | .buyItem shopId itemId quantity _ =>
      (∃ e, turn.reply = some (.error e) ∧ turn.after = turn.before)
      ∨ ∃ price total index listing,
          pricing.buyPrice shopId itemId turn.before = some price
          ∧ turn.reply = some (.bought itemId quantity total)
          ∧ total.toNat = quantity.toNat * price.toNat
          ∧ turn.before.listingIndex shopId itemId = some index
          ∧ turn.before.listingAt shopId index = some listing
          ∧ ∀ stock, listing.stock = some stock →
              ∃ later left,
                turn.after.listingAt shopId index = some later
                ∧ later.stock = some left
                ∧ left.toNat + quantity.toNat = stock.toNat
  | .sellItem shopId itemId quantity _ =>
      (∃ e, turn.reply = some (.error e) ∧ turn.after = turn.before)
      ∨ ∃ price total,
          pricing.sellPrice shopId itemId registry turn.before = some price
          ∧ turn.reply = some (.sold itemId quantity total)
          ∧ total.toNat = quantity.toNat * price.toNat
  | .tickShops _ => turn.reply = none

variable {pricing : Pricing} {registry : ItemRegistry} {manager : ShopManager}

/-- A purchase fails and changes nothing, or it is charged at the buy price and taken from the
first listing of the item, which has enough.
-/
theorem buyItem_cases (shopId : ShopId) (itemId : ItemDefId) (quantity : UInt32)
    (playerGold : UInt64)
    : (∃ e, pricing.buyItem shopId itemId quantity playerGold manager = (.error e, manager))
      ∨ ∃ shop listing price,
          manager.shops.lookup shopId = some shop
          ∧ findListing itemId shop = some listing
          ∧ pricing.buyPrice shopId itemId manager = some price
          ∧ (∀ stock, listing.stock = some stock → quantity ≤ stock)
          ∧ pricing.buyItem shopId itemId quantity playerGold manager
            = (.bought itemId quantity (price * quantity.toUInt64),
                { shops :=
                    manager.shops.insert shopId
                      { shop with
                        listings :=
                          updateListing itemId
                            (fun listing =>
                              { listing with stock := listing.stock.map (· - quantity) })
                            shop.listings
                        demandTracker := shop.demandTracker.recordBuy itemId quantity } }) := by
  unfold buyItem
  cases found : manager.shops.lookup shopId with
  | none => exact Or.inl ⟨_, rfl⟩
  | some shop =>
      simp only
      cases listed : findListing itemId shop with
      | none => exact Or.inl ⟨_, rfl⟩
      | some listing =>
          simp only
          split
          next => exact Or.inl ⟨_, rfl⟩
          next enough =>
            split
            next => exact Or.inl ⟨_, rfl⟩
            next =>
              refine Or.inr ⟨shop, listing, _, rfl, listed, ?_, fun stock limited => ?_, rfl⟩
              · simp only [buyPrice, found, listed, Option.bind_eq_bind, Option.bind_some]
              · simpa [lacksStock, limited] using enough

/-- A sale fails and changes nothing, or it is paid at the sell price and noted. -/
theorem sellItem_cases (shopId : ShopId) (itemId : ItemDefId)
    (quantity playerItemCount : UInt32)
    : (∃ e,
          pricing.sellItem shopId itemId quantity playerItemCount registry manager
          = (.error e, manager))
      ∨ ∃ shop price,
          manager.shops.lookup shopId = some shop
          ∧ pricing.sellPrice shopId itemId registry manager = some price
          ∧ pricing.sellItem shopId itemId quantity playerItemCount registry manager
            = (.sold itemId quantity (price * quantity.toUInt64),
                { shops :=
                    manager.shops.insert shopId
                      { shop with
                        demandTracker := shop.demandTracker.recordSell itemId quantity } }) := by
  unfold sellItem
  cases registered : registry.lookup itemId with
  | none => exact Or.inl ⟨_, rfl⟩
  | some item =>
      simp only
      cases found : manager.shops.lookup shopId with
      | none => exact Or.inl ⟨_, rfl⟩
      | some shop =>
          simp only
          split
          next => exact Or.inl ⟨_, rfl⟩
          next =>
            refine Or.inr ⟨shop, _, rfl, ?_, rfl⟩
            simp only [sellPrice, found, registered, Option.bind_eq_bind, Option.bind_some]

theorem call_buyItem (shopId : ShopId) (itemId : ItemDefId) (quantity : UInt32)
    (playerGold : UInt64)
    : pricing.call registry (.buyItem shopId itemId quantity playerGold) manager
      = some
          (some (pricing.buyItem shopId itemId quantity playerGold manager).1,
            (pricing.buyItem shopId itemId quantity playerGold manager).2) :=
  rfl

theorem call_sellItem (shopId : ShopId) (itemId : ItemDefId)
    (quantity playerItemCount : UInt32)
    : pricing.call registry (.sellItem shopId itemId quantity playerItemCount) manager
      = some
          (some (pricing.sellItem shopId itemId quantity playerItemCount registry manager).1,
            (pricing.sellItem shopId itemId quantity playerItemCount registry manager).2) :=
  rfl

/-- A total that fits is the product. -/
theorem toNat_total {price : UInt64} {quantity : UInt32}
    (fits : quantity.toNat * price.toNat < 2 ^ 64)
    : (price * quantity.toUInt64).toNat = quantity.toNat * price.toNat := by
  rw [UInt64.toNat_mul, UInt32.toNat_toUInt64, Nat.mul_comm, Nat.mod_eq_of_lt fits]

/-- A listing that loses a quantity it has. -/
theorem stock_lowered {listing : ShopListing} {quantity stock : UInt32}
    (enough : ∀ stock, listing.stock = some stock → quantity ≤ stock)
    (limited : listing.stock = some stock)
    : listing.stock.map (· - quantity) = some (stock - quantity)
      ∧ (stock - quantity).toNat + quantity.toNat = stock.toNat := by
  have le := enough stock limited
  refine ⟨by rw [limited, Option.map_some], ?_⟩
  rw [UInt32.toNat_sub_of_le _ _ le]
  have := UInt32.le_iff_toNat_le.mp le
  omega

/-- Every call is charged as it should be, where its total fits. -/
theorem charged_call {before after : ShopManager} {op : ShopOp} {reply : Option ShopResult}
    (fits : pricing.Fits registry ⟨before, op, reply, after⟩)
    (returns : pricing.call registry op before = some (reply, after))
    : pricing.Charged registry ⟨before, op, reply, after⟩ := by
  cases op with
  | buyItem shopId itemId quantity playerGold =>
      rw [call_buyItem] at returns
      rcases @buyItem_cases pricing before shopId itemId quantity playerGold
        with ⟨e, same⟩ | ⟨shop, listing, price, found, listed, isPrice, enough, same⟩
      · rw [same] at returns
        obtain ⟨rfl, rfl⟩ := Prod.mk.inj (Option.some.inj returns)
        exact Or.inl ⟨e, rfl, rfl⟩
      · rw [same] at returns
        obtain ⟨rfl, rfl⟩ := Prod.mk.inj (Option.some.inj returns)
        obtain ⟨index, isIndex, isListing⟩ := (findListing_eq_some_iff found).mp listed
        refine Or.inr ⟨price, _, index, listing, isPrice, rfl,
          toNat_total (fits price isPrice), isIndex, isListing, fun stock limited => ?_⟩
        obtain ⟨lowered, balanced⟩ := stock_lowered enough limited
        refine ⟨{ listing with stock := listing.stock.map (· - quantity) }, stock - quantity, ?_,
          lowered, balanced⟩
        rw [listingAt_updateListing found, if_pos ⟨rfl, isIndex⟩, isListing, Option.map_some]
  | sellItem shopId itemId quantity playerItemCount =>
      rw [call_sellItem] at returns
      rcases @sellItem_cases pricing registry before shopId itemId quantity playerItemCount
        with ⟨e, same⟩ | ⟨shop, price, found, isPrice, same⟩
      · rw [same] at returns
        obtain ⟨rfl, rfl⟩ := Prod.mk.inj (Option.some.inj returns)
        exact Or.inl ⟨e, rfl, rfl⟩
      · rw [same] at returns
        obtain ⟨rfl, rfl⟩ := Prod.mk.inj (Option.some.inj returns)
        exact Or.inr ⟨price, _, isPrice, rfl, toNat_total (fits price isPrice)⟩
  | tickShops currentTick => exact (Prod.mk.inj (Option.some.inj returns)).1.symm

-----------------------------------------------------------------------------------------
-- The stock of one listing
-----------------------------------------------------------------------------------------

/-- A listing is there with a limited stock, whose maximum is the one given. -/
def Stocked (shopId : ShopId) (index : Nat) (maxStock : Option UInt32) (manager : ShopManager)
    : Prop :=
  ∃ listing stock,
    manager.listingAt shopId index = some listing
    ∧ listing.stock = some stock
    ∧ listing.maxStock = maxStock

/-- How many units a listing with a limited stock has. -/
def unitsAt (shopId : ShopId) (index : Nat) (manager : ShopManager) : Nat :=
  (((manager.listingAt shopId index).bind ShopListing.stock).map UInt32.toNat).getD 0

theorem unitsAt_eq {shopId : ShopId} {index : Nat} {listing : ShopListing} {stock : UInt32}
    (isListing : manager.listingAt shopId index = some listing)
    (limited : listing.stock = some stock) : unitsAt shopId index manager = stock.toNat := by
  rw [unitsAt, isListing, Option.bind_some, limited, Option.map_some, Option.getD_some]

/-- What a call makes of the listing at a place: it stays as it is, or units of it are bought, or it
is restocked.
-/
theorem listingAt_cases {before after : ShopManager} {op : ShopOp} {reply : Option ShopResult}
    (returns : pricing.call registry op before = some (reply, after)) (shopId : ShopId)
    (index : Nat)
    : (after.listingAt shopId index = before.listingAt shopId index
        ∧ ShopTurn.boughtUnits shopId index ⟨before, op, reply, after⟩ = 0
        ∧ ShopTurn.restockedUnits shopId index ⟨before, op, reply, after⟩ = 0)
      ∨ (∃ quantity : UInt32,
          after.listingAt shopId index
            = (before.listingAt shopId index).map (fun listing =>
                { listing with stock := listing.stock.map (· - quantity) })
          ∧ (∀ listing stock, before.listingAt shopId index = some listing →
              listing.stock = some stock → quantity ≤ stock)
          ∧ ShopTurn.boughtUnits shopId index ⟨before, op, reply, after⟩ = quantity.toNat
          ∧ ShopTurn.restockedUnits shopId index ⟨before, op, reply, after⟩ = 0)
      ∨ ∃ currentTick,
          op = .tickShops currentTick
          ∧ after.listingAt shopId index
            = (before.listingAt shopId index).map (restock currentTick) := by
  cases op with
  | buyItem shopId' itemId quantity playerGold =>
      rw [call_buyItem] at returns
      rcases @buyItem_cases pricing before shopId' itemId quantity playerGold
        with ⟨e, same⟩ | ⟨shop, first, price, found, listed, isPrice, enough, same⟩
      · rw [same] at returns
        obtain ⟨rfl, rfl⟩ := Prod.mk.inj (Option.some.inj returns)
        exact Or.inl ⟨rfl, rfl, rfl⟩
      · rw [same] at returns
        obtain ⟨rfl, rfl⟩ := Prod.mk.inj (Option.some.inj returns)
        rw [listingAt_updateListing found]
        by_cases here : shopId = shopId' ∧ before.listingIndex shopId' itemId = some index
        · -- the listing at this index is the one that was found
          refine Or.inr (Or.inl ⟨quantity, if_pos here, fun listing stock isListing => ?_,
            if_pos here, rfl⟩)
          obtain ⟨index', isIndex, isFirst⟩ := (findListing_eq_some_iff found).mp listed
          obtain rfl := Option.some.inj (isIndex.symm.trans here.2)
          obtain rfl := here.1
          obtain rfl := Option.some.inj (isListing.symm.trans isFirst)
          exact enough stock
        · exact Or.inl ⟨if_neg here, if_neg here, rfl⟩
  | sellItem shopId' itemId quantity playerItemCount =>
      rw [call_sellItem] at returns
      refine Or.inl ⟨?_, rfl, rfl⟩
      rcases @sellItem_cases pricing registry before shopId' itemId quantity playerItemCount
        with ⟨e, same⟩ | ⟨shop, price, found, isPrice, same⟩
      · rw [same] at returns
        obtain ⟨rfl, rfl⟩ := Prod.mk.inj (Option.some.inj returns)
        rfl
      · rw [same] at returns
        obtain ⟨rfl, rfl⟩ := Prod.mk.inj (Option.some.inj returns)
        rw [listingAt_insert]
        by_cases here : shopId = shopId'
        · subst here
          simp only [listingAt, found, Option.bind_eq_bind, Option.bind_some, if_true]
        · rw [if_neg here]
  | tickShops currentTick =>
      obtain ⟨rfl, rfl⟩ := Prod.mk.inj (Option.some.inj returns)
      exact Or.inr (Or.inr ⟨currentTick, rfl, listingAt_tickShops currentTick shopId index before⟩)

/-- What a call makes of a listing with a limited stock. -/
theorem stock_call {before after : ShopManager} {op : ShopOp} {reply : Option ShopResult}
    (within : before.WithinMax) (fits : pricing.Fits registry ⟨before, op, reply, after⟩)
    (returns : pricing.call registry op before = some (reply, after))
    {shopId : ShopId} {index : Nat} {listing : ShopListing} {stock : UInt32}
    (isListing : before.listingAt shopId index = some listing)
    (limited : listing.stock = some stock)
    : ∃ later left,
        after.listingAt shopId index = some later
        ∧ later.stock = some left
        ∧ later.maxStock = listing.maxStock
        ∧ (∀ maxStock, listing.maxStock = some maxStock → left ≤ maxStock)
        ∧ left.toNat + ShopTurn.boughtUnits shopId index ⟨before, op, reply, after⟩
          = stock.toNat + ShopTurn.restockedUnits shopId index ⟨before, op, reply, after⟩ := by
  have below := within shopId index listing isListing stock
  rcases listingAt_cases returns shopId index
    with ⟨same, noneBought, noneRestocked⟩ | ⟨quantity, lowered, enough, bought, noneRestocked⟩
      | ⟨currentTick, rfl, restocked⟩
  · rw [noneBought, noneRestocked]
    exact ⟨listing, stock, same.trans isListing, limited, rfl,
      fun maxStock => below maxStock limited, rfl⟩
  · obtain ⟨isLeft, balanced⟩ := stock_lowered (enough listing · isListing) limited
    rw [isListing] at lowered
    refine ⟨_, stock - quantity, lowered, isLeft, rfl, fun maxStock isMax => ?_, ?_⟩
    · have := UInt32.le_iff_toNat_le.mp (below maxStock limited isMax)
      exact UInt32.le_iff_toNat_le.mpr (by omega)
    · rw [bought, noneRestocked, balanced, Nat.add_zero]
  · obtain ⟨left, isLeft, sum, sameMax, limit⟩ :=
      @stock_restock currentTick listing stock limited (fun maxStock => below maxStock limited)
        (fun maxStock => fits shopId index listing isListing stock limited maxStock)
    rw [isListing] at restocked
    refine ⟨_, left, restocked, isLeft, sameMax, limit, ?_⟩
    simp only [ShopTurn.boughtUnits, ShopTurn.restockedUnits, isListing, Option.map_some,
      Option.getD_some]
    exact sum

/-- No call makes a listing with a limited stock, or one where there was none. -/
theorem listingAt_call {before after : ShopManager} {op : ShopOp} {reply : Option ShopResult}
    (returns : pricing.call registry op before = some (reply, after))
    {shopId : ShopId} {index : Nat} {later : ShopListing} {left : UInt32}
    (isListing : after.listingAt shopId index = some later) (limited : later.stock = some left)
    : ∃ listing stock,
        before.listingAt shopId index = some listing ∧ listing.stock = some stock := by
  rcases listingAt_cases returns shopId index
    with ⟨same, -⟩ | ⟨quantity, lowered, -⟩ | ⟨currentTick, -, restocked⟩
  · exact ⟨later, left, same.symm.trans isListing, limited⟩
  · obtain ⟨listing, isBefore, rfl⟩ := Option.map_eq_some_iff.mp (lowered.symm.trans isListing)
    obtain ⟨stock, isStock, -⟩ := Option.map_eq_some_iff.mp limited
    exact ⟨listing, stock, isBefore, isStock⟩
  · obtain ⟨listing, isBefore, rfl⟩ := Option.map_eq_some_iff.mp (restocked.symm.trans isListing)
    cases isStock : listing.stock with
    | some stock => exact ⟨listing, stock, isBefore, isStock⟩
    | none => simp [restock, isStock] at limited

/-- Every call keeps the stocks within their maxima. -/
theorem withinMax_call {before after : ShopManager} {op : ShopOp} {reply : Option ShopResult}
    (within : before.WithinMax) (fits : pricing.Fits registry ⟨before, op, reply, after⟩)
    (returns : pricing.call registry op before = some (reply, after)) : after.WithinMax := by
  intro shopId index later isLater left maxStock limited isMax
  obtain ⟨listing, stock, isListing, isStock⟩ := listingAt_call returns isLater limited
  obtain ⟨later', left', isLater', limited', sameMax, limit, -⟩ :=
    stock_call within fits returns isListing isStock
  obtain rfl := Option.some.inj (isLater.symm.trans isLater')
  obtain rfl := Option.some.inj (limited.symm.trans limited')
  exact limit maxStock (sameMax.symm.trans isMax)

-----------------------------------------------------------------------------------------
-- Runs
-----------------------------------------------------------------------------------------

variable {ops : List ShopOp}

/-- What a run makes of a listing with a limited stock: its account balances. -/
theorem stock_run (within : manager.WithinMax)
    (fits : ∀ turn ∈ CallTrace.calls (pricing.call registry) ops manager,
      pricing.Fits registry turn)
    {shopId : ShopId} {index : Nat} {listing : ShopListing} {stock : UInt32}
    (isListing : manager.listingAt shopId index = some listing)
    (limited : listing.stock = some stock)
    : ∃ later left,
        (CallTrace.final (pricing.call registry) ops manager).listingAt shopId index = some later
        ∧ later.stock = some left
        ∧ later.maxStock = listing.maxStock
        ∧ left.toNat
            + ((CallTrace.calls (pricing.call registry) ops manager).map
                (ShopTurn.boughtUnits shopId index)).sum
          = stock.toNat
            + ((CallTrace.calls (pricing.call registry) ops manager).map
                (ShopTurn.restockedUnits shopId index)).sum := by
  have keeps
      : ∀ turn : ShopTurn,
          turn.before.WithinMax ∧ Stocked shopId index listing.maxStock turn.before →
          pricing.Fits registry turn →
          pricing.call registry turn.op turn.before = some (turn.reply, turn.after) →
          turn.after.WithinMax ∧ Stocked shopId index listing.maxStock turn.after := by
    intro turn start fits returns
    obtain ⟨within, found, stock, isFound, isStock, sameMax⟩ := start
    obtain ⟨later, left, isLater, isLeft, sameMax', -⟩ :=
      stock_call within fits returns isFound isStock
    exact ⟨withinMax_call within fits returns, later, left, isLater, isLeft,
      sameMax'.trans sameMax⟩
  have balanced
      : ∀ turn : ShopTurn,
          turn.before.WithinMax ∧ Stocked shopId index listing.maxStock turn.before →
          pricing.Fits registry turn →
          pricing.call registry turn.op turn.before = some (turn.reply, turn.after) →
          unitsAt shopId index turn.after + ShopTurn.boughtUnits shopId index turn
          = unitsAt shopId index turn.before + ShopTurn.restockedUnits shopId index turn := by
    intro turn start fits returns
    obtain ⟨within, found, stock, isFound, isStock, -⟩ := start
    obtain ⟨later, left, isLater, isLeft, -, -, balance⟩ :=
      stock_call within fits returns isFound isStock
    rw [unitsAt_eq isLater isLeft, unitsAt_eq isFound isStock]
    exact balance
  have start : manager.WithinMax ∧ Stocked shopId index listing.maxStock manager :=
    ⟨within, listing, stock, isListing, limited, rfl⟩
  have account :=
    @CallTrace.balance _ _ _ _ (fun state => _ ∧ _) _ keeps _ _ _ balanced _ _ fits start
  obtain ⟨-, -, later, left, isLater, isLeft, sameMax⟩ :=
    @CallTrace.invariant_of_allowed _ _ _ _ (fun state => _ ∧ _) _ keeps _ _ fits start
  rw [unitsAt_eq isLater isLeft, unitsAt_eq isListing limited] at account
  exact ⟨later, left, isLater, isLeft, sameMax, account⟩

/-- A run makes no listing with a limited stock. -/
theorem listingAt_run {shopId : ShopId} {index : Nat} {later : ShopListing} {left : UInt32}
    (isLater
      : (CallTrace.final (pricing.call registry) ops manager).listingAt shopId index = some later)
    (limited : later.stock = some left)
    : ∃ listing stock,
        manager.listingAt shopId index = some listing ∧ listing.stock = some stock := by
  by_contra absent
  refine @CallTrace.final_invariant _ _ _ (pricing.call registry)
    (fun state =>
      ¬ ∃ listing stock, state.listingAt shopId index = some listing ∧ listing.stock = some stock)
    (fun op before reply after none returns => ?_) ops manager absent
    ⟨later, left, isLater, limited⟩
  rintro ⟨later, left, isLater, limited⟩
  exact none (listingAt_call returns isLater limited)

/-- From shops whose stocks are within their maxima, in every run without an overflow, every
purchase and every sale is charged at the price before it, what fails changes nothing, and
every limited stock is within its maximum and is what it was at first, less what was bought
from it, and what was restocked.
-/
theorem shopAccounting_run (pricing : Pricing) (registry : ItemRegistry) (manager : ShopManager)
    (within : manager.WithinMax) (ops : List ShopOp)
    (fits : ∀ turn ∈ CallTrace.calls (pricing.call registry) ops manager,
      pricing.Fits registry turn)
    : (∀ turn ∈ CallTrace.calls (pricing.call registry) ops manager,
          pricing.Charged registry turn)
      ∧ (CallTrace.final (pricing.call registry) ops manager).WithinMax
      ∧ ∀ shopId index later left,
          (CallTrace.final (pricing.call registry) ops manager).listingAt shopId index
              = some later →
          later.stock = some left →
          ∃ listing stock,
            manager.listingAt shopId index = some listing
            ∧ listing.stock = some stock
            ∧ later.maxStock = listing.maxStock
            ∧ left.toNat
                + ((CallTrace.calls (pricing.call registry) ops manager).map
                    (ShopTurn.boughtUnits shopId index)).sum
              = stock.toNat
                + ((CallTrace.calls (pricing.call registry) ops manager).map
                    (ShopTurn.restockedUnits shopId index)).sum := by
  refine ⟨fun turn member => charged_call (fits turn member) (CallTrace.call_of_mem member),
    ?_, fun shopId index later left isLater limited => ?_⟩
  · have keeps (turn : ShopTurn) := @withinMax_call pricing registry turn.before turn.after
    exact (CallTrace.invariant_of_allowed
      (fun turn within fits returns => keeps turn within fits returns) fits within).2
  · obtain ⟨listing, stock, isListing, isStock⟩ := listingAt_run isLater limited
    obtain ⟨later', left', isLater', limited', sameMax, balance⟩ :=
      stock_run within fits isListing isStock
    obtain rfl := Option.some.inj (isLater.symm.trans isLater')
    obtain rfl := Option.some.inj (limited.symm.trans limited')
    exact ⟨listing, stock, isListing, isStock, sameMax, balance⟩

/-- A shop that has 10 of its 20 health potions. -/
def potionShop : ShopManager :=
  new.register
    { generalStore with listings := [{ listing 20 30 20 2 100 with stock := some 10 }] }

/-- Its only listing. -/
theorem listingAt_potionShop {shopId : ShopId} {index : Nat} {found : ShopListing}
    (isListing : potionShop.listingAt shopId index = some found)
    : found = { listing 20 30 20 2 100 with stock := some 10 } := by
  obtain ⟨shop, isShop, isHere⟩ := Option.bind_eq_some_iff.mp isListing
  unfold potionShop register new at isShop
  rw [FinMap.lookup_insert_eq] at isShop
  split at isShop
  next =>
    rw [← Option.some.inj isShop] at isHere
    exact List.mem_singleton.mp (List.mem_of_getElem? isHere)
  next => simp at isShop

/-- A tick restocks the potions, three are bought and two are sold. -/
def potionTrade : List ShopOp :=
  [.tickShops 200, .buyItem 1 20 3 1000, .sellItem 1 20 2 2]

theorem shopAccounting_run_potionTrade
    : (∀ turn ∈ CallTrace.calls (rational.call .defaultRegistry) potionTrade potionShop,
          rational.Charged .defaultRegistry turn)
      ∧ (CallTrace.final (rational.call .defaultRegistry) potionTrade potionShop).WithinMax
      ∧ ∀ shopId index later left,
          (CallTrace.final (rational.call .defaultRegistry) potionTrade potionShop).listingAt
              shopId index
              = some later →
          later.stock = some left →
          ∃ listing stock,
            potionShop.listingAt shopId index = some listing
            ∧ listing.stock = some stock
            ∧ later.maxStock = listing.maxStock
            ∧ left.toNat
                + ((CallTrace.calls (rational.call .defaultRegistry) potionTrade
                    potionShop).map (ShopTurn.boughtUnits shopId index)).sum
              = stock.toNat
                + ((CallTrace.calls (rational.call .defaultRegistry) potionTrade
                    potionShop).map (ShopTurn.restockedUnits shopId index)).sum := by
  refine shopAccounting_run rational .defaultRegistry potionShop
    (fun shopId index listing isListing stock maxStock limited isMax => ?_) potionTrade
    fun turn member => ?_
  · rw [listingAt_potionShop isListing] at limited isMax
    rw [← Option.some.inj limited, ← Option.some.inj isMax]
    decide
  · simp only [potionTrade, CallTrace.calls, call, List.mem_cons, List.not_mem_nil, or_false]
      at member
    rcases member with rfl | rfl | rfl
    · intro shopId index listing isListing stock limited maxStock _ _ _
      rw [listingAt_potionShop isListing] at limited ⊢
      rw [← Option.some.inj limited]
      decide
    · intro price isPrice
      have : rational.buyPrice 1 20 (potionShop.tickShops 200) = some 30 := by decide +kernel
      obtain rfl := Option.some.inj (isPrice.symm.trans this)
      decide
    · intro price isPrice
      have
          : rational.sellPrice 1 20 .defaultRegistry
              (rational.buyItem 1 20 3 1000 (potionShop.tickShops 200)).2
            = some 9 := by
        decide +kernel
      obtain rfl := Option.some.inj (isPrice.symm.trans this)
      decide

end Pricing

end VeloChain
