import VeloChain.GameEngine.Shops

/-! Crafting: recipes, the check of level and materials, and the consumption of materials.
Quantities are checked: a call in which one underflows or overflows, or in which a missing entry
is unwrapped, does not return.
-/

namespace VeloChain

abbrev RecipeId := UInt32

/-- A single crafting recipe. -/
structure CraftingRecipe where
  id : RecipeId
  materials : List (ItemDefId × UInt32)
  resultItemId : ItemDefId
  resultQuantity : UInt32
  requiredLevel : UInt32
  deriving DecidableEq

/-- Result of attempting to craft. -/
inductive CraftResult
  | success (recipeId : RecipeId) (itemId : ItemDefId) (quantity : UInt32)
  | missingMaterials (missing : List (ItemDefId × UInt32 × UInt32))
  | levelTooLow (required current : UInt32)
  | recipeNotFound (recipeId : RecipeId)
  deriving DecidableEq

/-- Crafting registry holding all recipes. -/
structure CraftingRegistry where
  recipes : FinMap RecipeId CraftingRecipe

/-- What a player has of each item. -/
abbrev Inventory := FinMap ItemDefId UInt32

namespace Inventory

/-- The quantity of an item; zero without an entry. -/
def available (inventory : Inventory) (itemId : ItemDefId) : UInt32 :=
  (inventory.lookup itemId).getD 0

/-- Take one material; an entry that is used up is removed. -/
def consume (inventory : Inventory) (material : ItemDefId × UInt32) : Option Inventory :=
  match inventory.lookup material.1 with
  -- the entry is unwrapped
  | none => none
  | some entry =>
      if entry < material.2 then none
      else if entry - material.2 = 0 then some (inventory.erase material.1)
      else some (inventory.insert material.1 (entry - material.2))

/-- Take the materials one after another. -/
def consumeAll (materials : List (ItemDefId × UInt32)) (inventory : Inventory)
    : Option Inventory :=
  materials.foldlM consume inventory

/-- Add to the quantity of an item. -/
def add (itemId : ItemDefId) (quantity : UInt32) (inventory : Inventory) : Option Inventory :=
  if (inventory.available itemId).toNat + quantity.toNat < 2 ^ 32 then
    some (inventory.insert itemId (inventory.available itemId + quantity))
  else none

end Inventory

namespace CraftingRegistry

def new : CraftingRegistry := { recipes := ∅ }

/-- Register a recipe. -/
def register (registry : CraftingRegistry) (recipe : CraftingRecipe) : CraftingRegistry :=
  { recipes := registry.recipes.insert recipe.id recipe }

/-- Get a recipe by ID. -/
def get (registry : CraftingRegistry) (id : RecipeId) : Option CraftingRecipe :=
  registry.recipes.lookup id

/-- The materials of which there is too little, with what is required and available. -/
def missing (materials : List (ItemDefId × UInt32)) (inventory : Inventory)
    : List (ItemDefId × UInt32 × UInt32) :=
  materials.filterMap (fun material =>
    let available := inventory.available material.1
    if available < material.2 then some (material.1, material.2, available) else none)

/-- Check if a player can craft a recipe. -/
def canCraft (registry : CraftingRegistry) (recipeId : RecipeId) (playerLevel : UInt32)
    (inventory : Inventory) : CraftResult :=
  match registry.get recipeId with
  | none => .recipeNotFound recipeId
  | some recipe =>
      if playerLevel < recipe.requiredLevel then .levelTooLow recipe.requiredLevel playerLevel
      else if missing recipe.materials inventory ≠ [] then
        .missingMaterials (missing recipe.materials inventory)
      else .success recipeId recipe.resultItemId recipe.resultQuantity

/-- Execute crafting: consume the materials and add the result. -/
def executeCraft (registry : CraftingRegistry) (recipeId : RecipeId) (playerLevel : UInt32)
    (inventory : Inventory) : Option (CraftResult × Inventory) :=
  let result := registry.canCraft recipeId playerLevel inventory
  match result with
  | .success recipeId itemId quantity =>
      match registry.get recipeId with
      | none => none
      | some recipe =>
          match inventory.consumeAll recipe.materials with
          | none => none
          | some inventory =>
              match inventory.add itemId quantity with
              | none => none
              | some inventory => some (result, inventory)
  | result => some (result, inventory)

/-- The built-in recipes. -/
def defaultRecipes : List CraftingRecipe :=
  [ recipe 1 [(31, 5)] 1 1 1
  , recipe 2 [(30, 5), (31, 2)] 2 1 3
  , recipe 3 [(30, 15), (31, 5)] 3 1 8
  , recipe 4 [(30, 30), (32, 5), (31, 10)] 4 1 15
  , recipe 10 [(31, 3)] 10 1 1
  , recipe 11 [(30, 10), (31, 3)] 11 1 5
  , recipe 12 [(30, 8), (31, 2)] 12 1 4
  , recipe 20 [(31, 2)] 20 2 1
  , recipe 21 [(20, 3), (32, 1)] 21 1 10
  , recipe 22 [(31, 1)] 22 2 1
  , recipe 30 [(30, 3), (31, 1)] 30 2 2 ]
where
  recipe (id : RecipeId) (materials : List (ItemDefId × UInt32)) (resultItemId : ItemDefId)
      (resultQuantity requiredLevel : UInt32) : CraftingRecipe :=
    { id, materials, resultItemId, resultQuantity, requiredLevel }

/-- Create the default crafting registry with built-in recipes. -/
def defaultRegistry : CraftingRegistry := defaultRecipes.foldl register new

end CraftingRegistry

end VeloChain
