import VeloChain.GameEngine.ShopPrices

/-! How the two prices of an item follow its demand.
The price asked follows it, unless a volume overflows. The price paid goes the other way, since it
is divided by the multiplier: it follows the demand only where rounding hides the difference.
-/

namespace VeloChain

-----------------------------------------------------------------------------------------
-- Two demands
-----------------------------------------------------------------------------------------

/-- No whole price is asked at the first demand and exceeded at the second. -/
def AskedKept (basePrice : UInt64) (net net' : Int) : Prop :=
  ∀ price : Nat, price + 1 < 2 ^ 64 →
    (basePrice.toNat : Rat) * multiplierAt net ≤ price →
      (basePrice.toNat : Rat) * multiplierAt net' ≤ price

/-- No whole price above the least one is paid at the second demand and not at the first. -/
def PaidKept (value : UInt64) (buybackRate : Rat) (net net' : Int) : Prop :=
  ∀ price : Nat, 2 ≤ price → price < 2 ^ 64 →
    price * multiplierAt net' ≤ value.toNat * buybackRate →
      price * multiplierAt net ≤ value.toNat * buybackRate

theorem multiplierAt_pos (net : Int) : 0 < multiplierAt net :=
  lt_of_lt_of_le (by norm_num) (half_le_multiplierAt net)

/-- The price asked is the least whole number that is not below the product. -/
theorem unitCost_le_iff {basePrice : UInt64} {net net' : Int}
    : unitCost basePrice (multiplierAt net') ≤ unitCost basePrice (multiplierAt net)
      ↔ AskedKept basePrice net net' := by
  have reached (net : Int) (price : Nat)
      : ⌈(basePrice.toNat : Rat) * multiplierAt net⌉.toNat ≤ price
        ↔ (basePrice.toNat : Rat) * multiplierAt net ≤ price := by
    rw [Int.toNat_le, Int.ceil_le]
    exact Iff.rfl
  unfold AskedKept
  simp only [← reached, UInt64.le_iff_toNat_le, unitCost, toNat_asU64]
  constructor
  · intro le price room low
    omega
  · intro kept
    by_contra above
    have := kept ⌈(basePrice.toNat : Rat) * multiplierAt net⌉.toNat (by omega) (Nat.le_refl _)
    omega

/-- The price paid is the greatest whole number that is not above the quotient, and at least
one.
-/
theorem unitPayment_le_iff {value : UInt64} {buybackRate : Rat} {net net' : Int}
    : unitPayment value buybackRate (multiplierAt net')
        ≤ unitPayment value buybackRate (multiplierAt net)
      ↔ PaidKept value buybackRate net net' := by
  have reached (net : Int) {price : Nat} (positive : 2 ≤ price)
      : price ≤ ⌊(value.toNat : Rat) * buybackRate / multiplierAt net⌋.toNat
        ↔ price * multiplierAt net ≤ value.toNat * buybackRate := by
    have cast : ((price : Int) : Rat) = price := Int.cast_natCast price
    rw [← le_div_iff₀ (multiplierAt_pos net), ← cast, ← Int.le_floor]
    omega
  unfold PaidKept unitPayment
  have one : (1 : UInt64).toNat = 1 := rfl
  simp only [UInt64.le_iff_toNat_le, toNat_max, toNat_asU64, one]
  constructor
  · intro le price positive room high
    rw [← reached net positive]
    rw [← reached net' positive] at high
    omega
  · intro kept
    by_contra above
    -- the price paid at the second demand is the one that is not paid at the first
    generalize quotient : ⌊(value.toNat : Rat) * buybackRate / multiplierAt net'⌋.toNat = most
      at above
    obtain ⟨price, isPrice⟩ : ∃ price, price = min most (2 ^ 64 - 1) := ⟨_, rfl⟩
    have positive : 2 ≤ price := by omega
    have paid := (reached net positive).mpr
      (kept price positive (by omega) ((reached net' positive).mp (by omega)))
    omega

/-- Less demand does not raise the price asked. -/
theorem askedKept_of_le {basePrice : UInt64} {net net' : Int} (le : net' ≤ net)
    : AskedKept basePrice net net' := fun _ _ low =>
  (mul_le_mul_of_nonneg_left (multiplierAt_mono le) (Nat.cast_nonneg _)).trans low

section Volumes

variable {basePrice : UInt64} {bought sold more : Nat}

/-- Sales that fit into the volume do not raise the price asked. -/
theorem askedKept_of_sold (room : sold + more < 2 ^ 32)
    : AskedKept basePrice ((bought : Int) - sold)
        (bought - ((sold + more) % 2 ^ 32 : Nat)) := by
  apply askedKept_of_le
  rw [Nat.mod_eq_of_lt room]
  omega

/-- Purchases that fit into the volume do not lower the price asked. -/
theorem askedKept_of_bought (room : bought + more < 2 ^ 32)
    : AskedKept basePrice (((bought + more) % 2 ^ 32 : Nat) - (sold : Int))
        ((bought : Int) - sold) := by
  apply askedKept_of_le
  rw [Nat.mod_eq_of_lt room]
  omega

end Volumes

-----------------------------------------------------------------------------------------
-- More sells, more buys
-----------------------------------------------------------------------------------------

namespace DemandTracker

/-- Record sales of an item, one after another. -/
def recordSells (itemId : ItemDefId) (quantities : List UInt32) (tracker : DemandTracker)
    : DemandTracker :=
  quantities.foldl (fun tracker quantity => tracker.recordSell itemId quantity) tracker

/-- Record purchases of an item, one after another. -/
def recordBuys (itemId : ItemDefId) (quantities : List UInt32) (tracker : DemandTracker)
    : DemandTracker :=
  quantities.foldl (fun tracker quantity => tracker.recordBuy itemId quantity) tracker

/-- How much of an item has been bought in the window. -/
def bought (itemId : ItemDefId) (tracker : DemandTracker) : Nat :=
  ((tracker.buyVolume.lookup itemId).getD 0).toNat

/-- How much of an item has been sold in the window. -/
def sold (itemId : ItemDefId) (tracker : DemandTracker) : Nat :=
  ((tracker.sellVolume.lookup itemId).getD 0).toNat

/-- Volumes are added up in 32 bits, by induction on the quantities. -/
theorem toNat_addVolumes (itemId : ItemDefId) (quantities : List UInt32)
    (volume : FinMap ItemDefId UInt32)
    : (((quantities.foldl (fun volume quantity => addVolume itemId quantity volume)
          volume).lookup itemId).getD 0).toNat
      = (((volume.lookup itemId).getD 0).toNat + (quantities.map UInt32.toNat).sum)
          % 2 ^ 32 := by
  induction quantities generalizing volume with
  | nil => exact (Nat.mod_eq_of_lt ((volume.lookup itemId).getD 0).toNat_lt).symm
  | cons quantity rest ih =>
      rw [List.foldl_cons, ih, addVolume, Finmap.lookup_insert, Option.getD_some,
        UInt32.toNat_add, List.map_cons, List.sum_cons, Nat.mod_add_mod, Nat.add_assoc]

theorem recordSells_eq (itemId : ItemDefId) (quantities : List UInt32) (tracker : DemandTracker)
    : tracker.recordSells itemId quantities
      = { tracker with
          sellVolume :=
            quantities.foldl (fun volume quantity => addVolume itemId quantity volume)
              tracker.sellVolume } := by
  induction quantities generalizing tracker with
  | nil => rfl
  | cons quantity rest ih => exact ih (tracker.recordSell itemId quantity)

theorem recordBuys_eq (itemId : ItemDefId) (quantities : List UInt32) (tracker : DemandTracker)
    : tracker.recordBuys itemId quantities
      = { tracker with
          buyVolume :=
            quantities.foldl (fun volume quantity => addVolume itemId quantity volume)
              tracker.buyVolume } := by
  induction quantities generalizing tracker with
  | nil => rfl
  | cons quantity rest ih => exact ih (tracker.recordBuy itemId quantity)

/-- Sales add to the volume sold. -/
theorem net_recordSells (itemId : ItemDefId) (quantities : List UInt32)
    (tracker : DemandTracker)
    : (tracker.recordSells itemId quantities).net itemId
      = tracker.bought itemId
        - ((tracker.sold itemId + (quantities.map UInt32.toNat).sum) % 2 ^ 32 : Nat) := by
  rw [recordSells_eq, net, toNat_addVolumes]
  rfl

/-- Purchases add to the volume bought. -/
theorem net_recordBuys (itemId : ItemDefId) (quantities : List UInt32)
    (tracker : DemandTracker)
    : (tracker.recordBuys itemId quantities).net itemId
      = ((tracker.bought itemId + (quantities.map UInt32.toNat).sum) % 2 ^ 32 : Nat)
        - tracker.sold itemId := by
  rw [recordBuys_eq, net, toNat_addVolumes]
  rfl

end DemandTracker

namespace ShopManager

/-- Record demand in one shop. -/
def withDemand (shopId : ShopId) (record : DemandTracker → DemandTracker)
    (manager : ShopManager) : ShopManager :=
  { shops :=
      manager.shops.modify shopId (fun shop =>
        { shop with demandTracker := record shop.demandTracker }) }

/-- Neither price of an item is higher afterwards. -/
structure NoDearer (registry : ItemRegistry) (shopId : ShopId) (itemId : ItemDefId)
    (before after : ShopManager) : Prop where
  asked
    : ∀ price price',
        before.buyPrice shopId itemId = some price →
          after.buyPrice shopId itemId = some price' → price' ≤ price
  paid
    : ∀ price price',
        before.sellPrice shopId itemId registry = some price →
          after.sellPrice shopId itemId registry = some price' → price' ≤ price

/-- More sales raise neither price, and more purchases lower neither. -/
structure FollowsDemand (registry : ItemRegistry) (shopId : ShopId) (itemId : ItemDefId)
    (quantities : List UInt32) (manager : ShopManager) : Prop where
  sells
    : NoDearer registry shopId itemId manager
        (manager.withDemand shopId (.recordSells itemId quantities))
  buys
    : NoDearer registry shopId itemId
        (manager.withDemand shopId (.recordBuys itemId quantities)) manager

variable {registry : ItemRegistry} {shopId : ShopId} {itemId : ItemDefId}
  {manager : ShopManager} {shop : ShopDef}

/-- The price asked by a shop, at its demand. -/
theorem buyPrice_eq (found : manager.shops.lookup shopId = some shop)
    : manager.buyPrice shopId itemId
      = (findListing itemId shop).map (fun listing =>
          unitCost listing.basePrice (multiplierAt (shop.demandTracker.net itemId))) := by
  cases listed : findListing itemId shop <;>
    simp only [buyPrice, found, listed, Option.bind_eq_bind, Option.bind_some, Option.bind_none,
      Option.map_some, Option.map_none]
  rfl

/-- The price paid by a shop, at its demand. -/
theorem sellPrice_eq (found : manager.shops.lookup shopId = some shop)
    : manager.sellPrice shopId itemId registry
      = (registry.lookup itemId).map (fun item =>
          unitPayment item.value shop.buybackRate
            (multiplierAt (shop.demandTracker.net itemId))) := by
  cases registered : registry.lookup itemId <;>
    simp only [sellPrice, found, registered, Option.bind_eq_bind, Option.bind_some,
      Option.bind_none, Option.map_some, Option.map_none]
  rfl

/-- For two demands of one shop, neither price is higher at the second exactly when both are
kept.
-/
theorem noDearer_iff {before after : ShopManager} {tracker tracker' : DemandTracker}
    (found
      : before.shops.lookup shopId = some { shop with demandTracker := tracker })
    (found'
      : after.shops.lookup shopId = some { shop with demandTracker := tracker' })
    : NoDearer registry shopId itemId before after
      ↔ (∀ listing, findListing itemId shop = some listing →
          AskedKept listing.basePrice (tracker.net itemId) (tracker'.net itemId))
        ∧ ∀ item, registry.lookup itemId = some item →
            PaidKept item.value shop.buybackRate (tracker.net itemId) (tracker'.net itemId) := by
  have listings (tracker : DemandTracker)
      : findListing itemId { shop with demandTracker := tracker } = findListing itemId shop := rfl
  have asked := @buyPrice_eq shopId itemId before _ found
  have asked' := @buyPrice_eq shopId itemId after _ found'
  have paid := @sellPrice_eq registry shopId itemId before _ found
  have paid' := @sellPrice_eq registry shopId itemId after _ found'
  rw [listings] at asked asked'
  constructor
  · intro cheaper
    constructor
    · intro listing listed
      rw [listed, Option.map_some] at asked asked'
      exact unitCost_le_iff.mp (cheaper.asked _ _ asked asked')
    · intro item registered
      rw [registered, Option.map_some] at paid paid'
      exact unitPayment_le_iff.mp (cheaper.paid _ _ paid paid')
  · rintro ⟨askedKept, paidKept⟩
    constructor
    · intro price price' isPrice isPrice'
      rw [asked] at isPrice
      rw [asked'] at isPrice'
      obtain ⟨listing, listed, rfl⟩ := Option.map_eq_some_iff.mp isPrice
      rw [listed] at isPrice'
      obtain rfl := Option.some.inj isPrice'
      exact unitCost_le_iff.mpr (askedKept listing listed)
    · intro price price' isPrice isPrice'
      rw [paid] at isPrice
      rw [paid'] at isPrice'
      obtain ⟨item, registered, rfl⟩ := Option.map_eq_some_iff.mp isPrice
      rw [registered] at isPrice'
      obtain rfl := Option.some.inj isPrice'
      exact unitPayment_le_iff.mpr (paidKept item registered)

theorem lookup_withDemand (shopId : ShopId) (record : DemandTracker → DemandTracker)
    (manager : ShopManager)
    : (manager.withDemand shopId record).shops.lookup shopId
      = (manager.shops.lookup shopId).map (fun shop =>
          { shop with demandTracker := record shop.demandTracker }) := by
  rw [withDemand, FinMap.lookup_modify, if_pos rfl]

/-- Without the shop there are no prices. -/
theorem noDearer_of_missing {before after : ShopManager}
    (missing : before.shops.lookup shopId = none)
    : NoDearer registry shopId itemId before after := by
  constructor
  · intro price price' isPrice
    simp [buyPrice, missing] at isPrice
  · intro price price' isPrice
    simp [sellPrice, missing] at isPrice

/-- The prices of a shop follow the demand exactly when both are kept from before the sales to
after them, and from after the purchases to before them.
-/
theorem followsDemand_iff_kept {quantities : List UInt32}
    (found : manager.shops.lookup shopId = some shop)
    : let net := shop.demandTracker.net itemId
      let netSold := (shop.demandTracker.recordSells itemId quantities).net itemId
      let netBought := (shop.demandTracker.recordBuys itemId quantities).net itemId
      FollowsDemand registry shopId itemId quantities manager
        ↔ (∀ listing, findListing itemId shop = some listing →
            AskedKept listing.basePrice net netSold
              ∧ AskedKept listing.basePrice netBought net)
          ∧ ∀ item, registry.lookup itemId = some item →
              PaidKept item.value shop.buybackRate net netSold
                ∧ PaidKept item.value shop.buybackRate netBought net := by
  have sells := lookup_withDemand shopId (.recordSells itemId quantities) manager
  have buys := lookup_withDemand shopId (.recordBuys itemId quantities) manager
  rw [found, Option.map_some] at sells buys
  have sellsIff := @noDearer_iff registry shopId itemId shop _ _ _ _ found sells
  have buysIff := @noDearer_iff registry shopId itemId shop _ _ _ _ buys found
  constructor
  · rintro ⟨sells, buys⟩
    obtain ⟨asked, paid⟩ := sellsIff.mp sells
    obtain ⟨asked', paid'⟩ := buysIff.mp buys
    exact ⟨fun listing listed => ⟨asked listing listed, asked' listing listed⟩,
      fun item registered => ⟨paid item registered, paid' item registered⟩⟩
  · rintro ⟨asked, paid⟩
    constructor
    · exact sellsIff.mpr ⟨fun listing listed => (asked listing listed).1,
        fun item registered => (paid item registered).1⟩
    · exact buysIff.mpr ⟨fun listing listed => (asked listing listed).2,
        fun item registered => (paid item registered).2⟩

/-- For every registry, state of the shops, item and quantities: the prices follow the demand
exactly when no more is paid after the sales than before, nor before the purchases than after, up
to rounding, and no volume overflows so that a price asked is exceeded.
-/
theorem followsDemand_iff (registry : ItemRegistry) (shopId : ShopId) (itemId : ItemDefId)
    (quantities : List UInt32) (manager : ShopManager)
    : FollowsDemand registry shopId itemId quantities manager
      ↔ ∀ shop, manager.shops.lookup shopId = some shop →
          let bought := shop.demandTracker.bought itemId
          let sold := shop.demandTracker.sold itemId
          let more := (quantities.map UInt32.toNat).sum
          let net : Int := bought - sold
          let netSold : Int := bought - ((sold + more) % 2 ^ 32 : Nat)
          let netBought : Int := ((bought + more) % 2 ^ 32 : Nat) - sold
          (∀ listing, findListing itemId shop = some listing →
            (sold + more < 2 ^ 32 ∨ AskedKept listing.basePrice net netSold)
            ∧ (bought + more < 2 ^ 32 ∨ AskedKept listing.basePrice netBought net))
          ∧ ∀ item, registry.lookup itemId = some item →
              PaidKept item.value shop.buybackRate net netSold
              ∧ PaidKept item.value shop.buybackRate netBought net := by
  cases found : manager.shops.lookup shopId with
  | none =>
      refine iff_of_true ⟨noDearer_of_missing found, noDearer_of_missing ?_⟩
        fun shop isThere => nomatch isThere
      rw [lookup_withDemand, found, Option.map_none]
  | some shop =>
      refine (followsDemand_iff_kept found).trans ?_
      rw [DemandTracker.net_recordSells, DemandTracker.net_recordBuys]
      constructor
      · rintro ⟨asked, paid⟩ _ ⟨⟩
        refine ⟨fun listing listed => ?_, paid⟩
        obtain ⟨sells, buys⟩ := asked listing listed
        exact ⟨Or.inr sells, Or.inr buys⟩
      · intro all
        obtain ⟨asked, paid⟩ := all shop rfl
        refine ⟨fun listing listed => ?_, paid⟩
        obtain ⟨sells, buys⟩ := asked listing listed
        exact ⟨sells.elim askedKept_of_sold id, buys.elim askedKept_of_bought id⟩

/-- After 25 health potions have been sold to the General Store, it pays 20 for one instead of 10.
-/
theorem followsDemand_fails
    : ¬ FollowsDemand .defaultRegistry 1 20 [25] defaultShops := by
  intro follows
  have dearer := follows.sells.paid 10 20 (by decide +kernel) (by decide +kernel)
  exact absurd dearer (by decide)

end ShopManager

end VeloChain
