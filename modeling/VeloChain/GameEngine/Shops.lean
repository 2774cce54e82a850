import Mathlib.Data.Rat.Floor
import VeloChain.Lib.MapLoops

/-! NPC shops: buying, selling, and prices that follow the demand. Prices are computed with
rational numbers; the other numbers are machine integers.
-/

namespace VeloChain

abbrev ItemDefId := UInt32
abbrev ShopId := UInt32

/-- What the shops know of an item. -/
structure ItemDef where
  id : ItemDefId
  value : UInt64
  deriving DecidableEq

/-- All item definitions. -/
abbrev ItemRegistry := FinMap ItemDefId ItemDef

namespace ItemRegistry

def register (registry : ItemRegistry) (item : ItemDef) : ItemRegistry :=
  registry.insert item.id item

/-- The items of the default registry. -/
def defaultItems : List ItemDef :=
  [ { id := 1, value := 10 }
  , { id := 2, value := 50 }
  , { id := 3, value := 200 }
  , { id := 4, value := 5000 }
  , { id := 10, value := 15 }
  , { id := 11, value := 80 }
  , { id := 12, value := 60 }
  , { id := 20, value := 25 }
  , { id := 21, value := 75 }
  , { id := 22, value := 5 }
  , { id := 30, value := 3 }
  , { id := 31, value := 1 }
  , { id := 32, value := 500 } ]

/-- Create the default item registry with built-in items. -/
def defaultRegistry : ItemRegistry := defaultItems.foldl register ∅

end ItemRegistry

/-- A shop listing. -/
structure ShopListing where
  itemId : ItemDefId
  basePrice : UInt64
  stock : Option UInt32
  maxStock : Option UInt32
  restockRate : UInt32
  restockInterval : UInt32
  lastRestockTick : UInt64
  deriving DecidableEq

/-- Tracks recent purchase and sell volumes for dynamic pricing. -/
structure DemandTracker where
  buyVolume : FinMap ItemDefId UInt32
  sellVolume : FinMap ItemDefId UInt32
  windowTicks : UInt64
  windowSize : UInt64

/-- Shop definition. -/
structure ShopDef where
  id : ShopId
  npcType : String
  name : String
  listings : List ShopListing
  buybackRate : Rat
  demandTracker : DemandTracker

inductive ShopError
  | shopNotFound (shopId : ShopId)
  | itemNotAvailable (itemId : ItemDefId)
  | outOfStock (itemId : ItemDefId) (available requested : UInt32)
  | insufficientGold (required available : UInt64)
  | insufficientItems (itemId : ItemDefId) (required available : UInt32)
  | cannotSellItem (itemId : ItemDefId)
  deriving DecidableEq

/-- Result of a shop transaction. -/
inductive ShopResult
  | bought (itemId : ItemDefId) (quantity : UInt32) (totalCost : UInt64)
  | sold (itemId : ItemDefId) (quantity : UInt32) (totalEarned : UInt64)
  | error (e : ShopError)
  deriving DecidableEq

/-- Shop manager holding all NPC shops. -/
structure ShopManager where
  shops : FinMap ShopId ShopDef

-----------------------------------------------------------------------------------------
-- Demand and prices
-----------------------------------------------------------------------------------------

namespace DemandTracker

def new (windowSize : UInt64) : DemandTracker :=
  { buyVolume := ∅, sellVolume := ∅, windowTicks := 0, windowSize }

/-- Add to the volume of an item. -/
def addVolume (itemId : ItemDefId) (quantity : UInt32) (volume : FinMap ItemDefId UInt32)
    : FinMap ItemDefId UInt32 :=
  volume.insert itemId ((volume.lookup itemId).getD 0 + quantity)

/-- Record a purchase. -/
def recordBuy (itemId : ItemDefId) (quantity : UInt32) (tracker : DemandTracker)
    : DemandTracker :=
  { tracker with buyVolume := addVolume itemId quantity tracker.buyVolume }

/-- Record a sale. -/
def recordSell (itemId : ItemDefId) (quantity : UInt32) (tracker : DemandTracker)
    : DemandTracker :=
  { tracker with sellVolume := addVolume itemId quantity tracker.sellVolume }

/-- Tick the demand window; volumes are halved when it ends. -/
def tick (tracker : DemandTracker) : DemandTracker :=
  let tracker := { tracker with windowTicks := tracker.windowTicks + 1 }
  if tracker.windowTicks ≥ tracker.windowSize then
    { tracker with
      buyVolume := tracker.buyVolume.mapValues (· / 2)
      sellVolume := tracker.sellVolume.mapValues (· / 2)
      windowTicks := 0 }
  else tracker

/-- How many more units of an item have been bought than sold in the window. -/
def net (itemId : ItemDefId) (tracker : DemandTracker) : Int :=
  ((tracker.buyVolume.lookup itemId).getD 0).toNat
    - ((tracker.sellVolume.lookup itemId).getD 0).toNat

/-- The price multiplier for an item: 2% for each net purchase, from 0.5 to 2. -/
def priceMultiplier (itemId : ItemDefId) (tracker : DemandTracker) : Rat :=
  max (1 / 2) (min (1 + tracker.net itemId * (1 / 50)) 2)

end DemandTracker

/-- A price as a 64-bit number, at most the highest one. -/
def asU64 (price : Int) : UInt64 := UInt64.ofNat (min price.toNat (2 ^ 64 - 1))

/-- What a unit costs. -/
def unitCost (basePrice : UInt64) (multiplier : Rat) : UInt64 :=
  asU64 ⌈(basePrice.toNat : Rat) * multiplier⌉

/-- What the shop pays for a unit. -/
def unitPayment (value : UInt64) (buybackRate multiplier : Rat) : UInt64 :=
  max (asU64 ⌊(value.toNat : Rat) * buybackRate / multiplier⌋) 1

-----------------------------------------------------------------------------------------
-- The shops
-----------------------------------------------------------------------------------------

namespace ShopManager

def new : ShopManager := { shops := ∅ }

/-- Register a shop. -/
def register (shop : ShopDef) (manager : ShopManager) : ShopManager :=
  { shops := manager.shops.insert shop.id shop }

/-- A listing with limited stock that has not been restocked yet. -/
def listing (itemId : ItemDefId) (basePrice : UInt64) (stock restockRate restockInterval : UInt32)
    : ShopListing :=
  { itemId
    basePrice
    stock := some stock
    maxStock := some stock
    restockRate
    restockInterval
    lastRestockTick := 0 }

def generalStore : ShopDef :=
  { id := 1
    npcType := "merchant"
    name := "General Store"
    listings :=
      [ listing 20 30 20 2 100
      , listing 21 100 5 1 200
      , listing 22 8 50 5 50
      , listing 1 15 5 1 300
      , listing 10 20 3 1 300 ]
    buybackRate := 2 / 5
    demandTracker := .new 600 }

def armory : ShopDef :=
  { id := 2
    npcType := "guard"
    name := "Armory"
    listings :=
      [ listing 2 75 3 1 500
      , listing 11 120 2 1 500
      , listing 12 90 2 1 500
      , listing 30 5 30 3 100 ]
    buybackRate := 1 / 2
    demandTracker := .new 600 }

/-- The built-in shops. -/
def defaultShops : ShopManager := (new.register generalStore).register armory

/-- The listing of an item: the first one. -/
def findListing (itemId : ItemDefId) (shop : ShopDef) : Option ShopListing :=
  shop.listings.find? (fun listing => listing.itemId == itemId)

/-- Change the first listing of an item. -/
def updateListing (itemId : ItemDefId) (f : ShopListing → ShopListing)
    : List ShopListing → List ShopListing
  | [] => []
  | listing :: rest =>
      if listing.itemId == itemId then f listing :: rest
      else listing :: updateListing itemId f rest

/-- Get the current buy price for an item in a shop. -/
def buyPrice (shopId : ShopId) (itemId : ItemDefId) (manager : ShopManager) : Option UInt64 := do
  let shop ← manager.shops.lookup shopId
  let listing ← findListing itemId shop
  some (unitCost listing.basePrice (shop.demandTracker.priceMultiplier itemId))

/-- Get the sell price for an item at a shop. -/
def sellPrice (shopId : ShopId) (itemId : ItemDefId) (registry : ItemRegistry)
    (manager : ShopManager) : Option UInt64 := do
  let shop ← manager.shops.lookup shopId
  let item ← registry.lookup itemId
  some
    (unitPayment item.value shop.buybackRate (shop.demandTracker.priceMultiplier itemId))

/-- Whether a stock is too small. -/
def lacksStock (stock : Option UInt32) (quantity : UInt32) : Bool :=
  stock.any (fun stock => stock < quantity)

/-- Buy an item from a shop. -/
def buyItem (shopId : ShopId) (itemId : ItemDefId) (quantity : UInt32) (playerGold : UInt64)
    (manager : ShopManager) : ShopResult × ShopManager :=
  match manager.shops.lookup shopId with
  | none => (.error (.shopNotFound shopId), manager)
  | some shop =>
      match findListing itemId shop with
      | none => (.error (.itemNotAvailable itemId), manager)
      | some listing =>
          if lacksStock listing.stock quantity then
            (.error (.outOfStock itemId (listing.stock.getD 0) quantity), manager)
          else
            let totalCost :=
              unitCost listing.basePrice (shop.demandTracker.priceMultiplier itemId)
                * quantity.toUInt64
            if playerGold < totalCost then
              (.error (.insufficientGold totalCost playerGold), manager)
            else
              (.bought itemId quantity totalCost,
                { shops :=
                    manager.shops.insert shopId
                      { shop with
                        listings :=
                          updateListing itemId
                            (fun listing =>
                              { listing with stock := listing.stock.map (· - quantity) })
                            shop.listings
                        demandTracker := shop.demandTracker.recordBuy itemId quantity } })

/-- Sell an item to a shop. -/
def sellItem (shopId : ShopId) (itemId : ItemDefId) (quantity playerItemCount : UInt32)
    (registry : ItemRegistry) (manager : ShopManager) : ShopResult × ShopManager :=
  match registry.lookup itemId with
  | none => (.error (.cannotSellItem itemId), manager)
  | some item =>
      match manager.shops.lookup shopId with
      | none => (.error (.shopNotFound shopId), manager)
      | some shop =>
          if playerItemCount < quantity then
            (.error (.insufficientItems itemId quantity playerItemCount), manager)
          else
            let totalEarned :=
              unitPayment item.value shop.buybackRate
                  (shop.demandTracker.priceMultiplier itemId)
                * quantity.toUInt64
            (.sold itemId quantity totalEarned,
              { shops :=
                  manager.shops.insert shopId
                    { shop with
                      demandTracker := shop.demandTracker.recordSell itemId quantity } })

/-- Restock one listing when it is due. -/
def restock (currentTick : UInt64) (listing : ShopListing) : ShopListing :=
  match listing.stock, listing.maxStock with
  | some stock, some maxStock =>
      if stock < maxStock ∧ listing.restockInterval > 0
          ∧ currentTick ≥ listing.lastRestockTick + listing.restockInterval.toUInt64 then
        { listing with
          stock := some (min (stock + listing.restockRate) maxStock)
          lastRestockTick := currentTick }
      else listing
  | _, _ => listing

/-- Tick one shop: its demand window and its restocking. -/
def tickShop (currentTick : UInt64) (shop : ShopDef) : ShopDef :=
  { shop with
    demandTracker := shop.demandTracker.tick
    listings := shop.listings.map (restock currentTick) }

/-- Tick all shops for restocking and demand window. -/
def tickShops (currentTick : UInt64) (manager : ShopManager) : ShopManager :=
  { shops := manager.shops.mapValues (tickShop currentTick) }

end ShopManager

/-- The operations of the shops. -/
inductive ShopOp
  | buyItem (shopId : ShopId) (itemId : ItemDefId) (quantity : UInt32) (playerGold : UInt64)
  | sellItem (shopId : ShopId) (itemId : ItemDefId) (quantity playerItemCount : UInt32)
  | tickShops (currentTick : UInt64)

namespace ShopManager

/-- The state after one operation. -/
def run (registry : ItemRegistry) (manager : ShopManager) : ShopOp → ShopManager
  | .buyItem shopId itemId quantity playerGold =>
      (manager.buyItem shopId itemId quantity playerGold).2
  | .sellItem shopId itemId quantity playerItemCount =>
      (manager.sellItem shopId itemId quantity playerItemCount registry).2
  | .tickShops currentTick => manager.tickShops currentTick

/-- The state after a run. -/
def runAll (registry : ItemRegistry) (manager : ShopManager) (ops : List ShopOp) : ShopManager :=
  ops.foldl (run registry) manager

end ShopManager

end VeloChain
