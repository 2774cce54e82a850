import VeloChain.GameEngine.Crafting

/-! When crafting conserves items.
The check looks at every line of a recipe by itself, the consumption at what the earlier lines
have left. The two agree unless an item stands in several lines or is required zero times.
-/

namespace VeloChain

/-- How much of an item a list of materials requires. -/
def required (itemId : ItemDefId) (materials : List (ItemDefId × UInt32)) : Nat :=
  ((materials.filter (fun material => material.1 = itemId)).map
    (fun material => material.2.toNat)).sum

/-- When the earlier lines have been consumed, a line still finds an entry of its item, and
enough of it.
-/
structure Inventory.Covers (inventory : Inventory) (earlier : List (ItemDefId × UInt32))
    (line : ItemDefId × UInt32) : Prop where
  present : line.1 ∈ inventory
  enough : required line.1 earlier + line.2.toNat ≤ (inventory.available line.1).toNat
  left
    : line.1 ∈ earlier.map Prod.fst →
        required line.1 earlier < (inventory.available line.1).toNat

/-- Every line is covered in its turn. -/
def Inventory.CoversAll (inventory : Inventory) (materials : List (ItemDefId × UInt32)) : Prop :=
  ∀ earlier line later, materials = earlier ++ line :: later → inventory.Covers earlier line

/-- An attempt that does not succeed leaves the inventory unchanged, and one that succeeds changes
the quantity of every item by the result less what is required.
-/
def CraftingRegistry.Conserves (registry : CraftingRegistry) (recipeId : RecipeId)
    (playerLevel : UInt32) (inventory : Inventory) : Prop :=
  ∃ result after,
    registry.executeCraft recipeId playerLevel inventory = some (result, after)
    ∧ match result with
      | .success _ _ _ =>
          ∃ recipe,
            registry.get recipeId = some recipe
            ∧ ∀ itemId,
                (after.available itemId).toNat + required itemId recipe.materials
                = (inventory.available itemId).toNat
                  + if itemId = recipe.resultItemId then recipe.resultQuantity.toNat else 0
      | _ => after = inventory

-----------------------------------------------------------------------------------------
-- Consumption
-----------------------------------------------------------------------------------------

namespace Inventory

variable {inventory after : Inventory} {materials : List (ItemDefId × UInt32)}

theorem required_append (itemId : ItemDefId) (materials : List (ItemDefId × UInt32))
    (line : ItemDefId × UInt32)
    : required itemId (materials ++ [line])
      = required itemId materials + if itemId = line.1 then line.2.toNat else 0 := by
  by_cases same : line.1 = itemId
  · simp [required, same]
  · simp [required, same, Ne.symm same]

theorem required_eq_zero {itemId : ItemDefId} (absent : itemId ∉ materials.map Prod.fst)
    : required itemId materials = 0 := by
  have none : materials.filter (fun material => material.1 = itemId) = [] := by
    rw [List.filter_eq_nil_iff]
    intro material member
    simp only [decide_eq_true_eq]
    rintro rfl
    exact absent (List.mem_map_of_mem member)
  rw [required, none]
  rfl

/-- One material is taken exactly where the entry has enough, and only its entry changes. -/
theorem consume_eq_some_iff {line : ItemDefId × UInt32}
    : inventory.consume line = some after
      ↔ ∃ entry,
          inventory.lookup line.1 = some entry
          ∧ line.2.toNat ≤ entry.toNat
          ∧ after
            = if entry = line.2 then inventory.erase line.1
              else inventory.insert line.1 (entry - line.2) := by
  unfold consume
  cases inventory.lookup line.1 with
  | none => simp
  | some entry =>
      have emptied : entry - line.2 = 0 ↔ entry = line.2 := by
        rw [UInt32.sub_eq_iff_eq_add, UInt32.zero_add]
      simp only [emptied, UInt32.lt_iff_toNat_lt, Option.some.injEq, exists_eq_left']
      split
      next less => simp [Nat.not_le.mpr less]
      next enough =>
        rw [← apply_ite some, Option.some.injEq]
        simp [Nat.le_of_not_lt enough, eq_comm]

/-- What a run of materials leaves of an item. -/
structure Leaves (inventory : Inventory) (materials : List (ItemDefId × UInt32))
    (after : Inventory) (itemId : ItemDefId) : Prop where
  untouched
    : itemId ∉ materials.map Prod.fst → after.lookup itemId = inventory.lookup itemId
  touched
    : itemId ∈ materials.map Prod.fst →
        ∃ entry,
          inventory.lookup itemId = some entry
          ∧ required itemId materials ≤ entry.toNat
          ∧ (after.lookup itemId).map UInt32.toNat
            = if required itemId materials = entry.toNat then none
              else some (entry.toNat - required itemId materials)

theorem consumeAll_append (materials : List (ItemDefId × UInt32)) (line : ItemDefId × UInt32)
    : inventory.consumeAll (materials ++ [line])
      = (inventory.consumeAll materials).bind (fun left => left.consume line) := by
  rw [consumeAll, List.foldlM_append]
  cases done : inventory.consumeAll materials with
  | none => simp [show materials.foldlM consume inventory = none from done]
  | some left => simp [show materials.foldlM consume inventory = some left from done]

/-- What is left of a line's item, after the earlier lines, is enough for it exactly where the line
is covered.
-/
theorem Leaves.covers_iff {line : ItemDefId × UInt32}
    (leaves : Leaves inventory materials after line.1)
    : (∃ entry, after.lookup line.1 = some entry ∧ line.2.toNat ≤ entry.toNat)
      ↔ inventory.Covers materials line := by
  by_cases listed : line.1 ∈ materials.map Prod.fst
  · obtain ⟨held, found, within, left⟩ := leaves.touched listed
    have available : inventory.available line.1 = held := by simp [available, found]
    have present : line.1 ∈ inventory := Finmap.mem_of_lookup_eq_some found
    constructor
    · rintro ⟨entry, isLeft, enough⟩
      rw [isLeft, Option.map_some] at left
      split at left
      next => cases left
      next remains =>
        have rest := Option.some.inj left
        exact ⟨present, by rw [available]; omega, fun _ => by rw [available]; omega⟩
    · rintro ⟨-, enough, some⟩
      rw [available] at enough some
      rw [if_neg (Nat.ne_of_lt (some listed))] at left
      obtain ⟨entry, isLeft, rest⟩ := Option.map_eq_some_iff.mp left
      exact ⟨entry, isLeft, by omega⟩
  · rw [leaves.untouched listed]
    have nothing := required_eq_zero listed
    constructor
    · rintro ⟨entry, found, enough⟩
      have available : inventory.available line.1 = entry := by simp [available, found]
      exact ⟨Finmap.mem_of_lookup_eq_some found, by rw [available, nothing]; omega,
        fun isListed => absurd isListed listed⟩
    · rintro ⟨present, enough, -⟩
      obtain ⟨entry, found⟩ := Finmap.mem_iff.mp present
      have available : inventory.available line.1 = entry := by simp [available, found]
      rw [available, nothing] at enough
      exact ⟨entry, found, by omega⟩

/-- One more line takes what it requires from its item and nothing else. -/
theorem Leaves.append {left : Inventory} {line : ItemDefId × UInt32} {itemId : ItemDefId}
    (leaves : Leaves inventory materials left itemId) (taken : left.consume line = some after)
    : Leaves inventory (materials ++ [line]) after itemId := by
  obtain ⟨entry, found, enough, rfl⟩ := consume_eq_some_iff.mp taken
  by_cases same : itemId = line.1
  · subst same
    have now
        : ((if entry = line.2 then left.erase line.1
            else left.insert line.1 (entry - line.2)).lookup line.1).map UInt32.toNat
          = if line.2.toNat = entry.toNat then none else some (entry.toNat - line.2.toNat) := by
      by_cases used : entry = line.2
      · simp [used]
      · have more : line.2.toNat ≠ entry.toNat := fun equal =>
          used (UInt32.toNat_inj.mp equal.symm)
        simp [used, more, UInt32.toNat_sub_of_le _ _ (UInt32.le_iff_toNat_le.mpr enough)]
    refine ⟨fun absent => absurd (by simp) absent, fun _ => ?_⟩
    rw [now, required_append, if_pos rfl]
    by_cases listed : line.1 ∈ materials.map Prod.fst
    · obtain ⟨held, isHeld, within, rest⟩ := leaves.touched listed
      rw [found, Option.map_some] at rest
      split at rest
      next => cases rest
      next remains =>
        have rest := Option.some.inj rest
        refine ⟨held, isHeld, by omega, ?_⟩
        split <;> split <;> first | rfl | omega | (congr 1; omega)
    · have isHeld := (leaves.untouched listed).symm.trans found
      rw [required_eq_zero listed, Nat.zero_add]
      exact ⟨entry, isHeld, enough, rfl⟩
  · have kept
        : (if entry = line.2 then left.erase line.1
            else left.insert line.1 (entry - line.2)).lookup itemId
          = left.lookup itemId := by
      split
      next => exact Finmap.lookup_erase_ne same
      next => exact Finmap.lookup_insert_of_ne _ same
    have listed_iff
        : itemId ∈ (materials ++ [line]).map Prod.fst ↔ itemId ∈ materials.map Prod.fst := by
      simp [same]
    refine ⟨fun absent => ?_, fun listed => ?_⟩
    · rw [kept, leaves.untouched (listed_iff.not.mp absent)]
    · simpa [kept, required_append, same] using leaves.touched (listed_iff.mp listed)

/-- A run of materials leaves of each item what has not been required, by induction on the
materials.
-/
theorem leaves_consumeAll (done : inventory.consumeAll materials = some after)
    (itemId : ItemDefId)
    : Leaves inventory materials after itemId := by
  induction materials using List.reverseRecOn generalizing after with
  | nil =>
      obtain rfl := Option.some.inj done
      exact ⟨fun _ => rfl, fun listed => nomatch listed⟩
  | append_singleton materials line ih =>
      rw [consumeAll_append] at done
      obtain ⟨left, earlier, taken⟩ := Option.bind_eq_some_iff.mp done
      exact (ih earlier).append taken

theorem coversAll_append {line : ItemDefId × UInt32}
    : inventory.CoversAll (materials ++ [line])
      ↔ inventory.CoversAll materials ∧ inventory.Covers materials line := by
  constructor
  · intro all
    refine ⟨fun earlier other later same => ?_, all materials line [] rfl⟩
    exact all earlier other (later ++ [line]) (by simp [same])
  · rintro ⟨all, last⟩ earlier other later same
    rcases List.eq_nil_or_concat later with rfl | ⟨later, final, rfl⟩
    · obtain ⟨rfl, here⟩ := List.append_inj' same rfl
      obtain rfl := List.singleton_inj.mp here
      exact last
    · rw [List.concat_eq_append, ← List.cons_append, ← List.append_assoc] at same
      exact all earlier other later (List.append_inj' same rfl).1

/-- The materials can be consumed exactly when every line is covered in its turn. -/
theorem consumeAll_eq_some_iff (materials : List (ItemDefId × UInt32))
    : (∃ after, inventory.consumeAll materials = some after)
      ↔ inventory.CoversAll materials := by
  induction materials using List.reverseRecOn with
  | nil =>
      refine iff_of_true ⟨inventory, rfl⟩ fun earlier line later same => ?_
      simp at same
  | append_singleton materials line ih =>
      rw [coversAll_append, ← ih, consumeAll_append]
      constructor
      · rintro ⟨after, done⟩
        obtain ⟨left, earlier, taken⟩ := Option.bind_eq_some_iff.mp done
        obtain ⟨entry, found, enough, -⟩ := consume_eq_some_iff.mp taken
        exact ⟨⟨left, earlier⟩,
          (leaves_consumeAll earlier line.1).covers_iff.mp ⟨entry, found, enough⟩⟩
      · rintro ⟨⟨left, earlier⟩, covers⟩
        obtain ⟨entry, found, enough⟩ := (leaves_consumeAll earlier line.1).covers_iff.mpr covers
        exact ⟨_, Option.bind_eq_some_iff.mpr
          ⟨left, earlier, consume_eq_some_iff.mpr ⟨entry, found, enough, rfl⟩⟩⟩

/-- Consumption takes from every item what is required of it. -/
theorem available_consumeAll (done : inventory.consumeAll materials = some after)
    (itemId : ItemDefId)
    : (after.available itemId).toNat + required itemId materials
      = (inventory.available itemId).toNat := by
  have leaves := leaves_consumeAll done itemId
  by_cases listed : itemId ∈ materials.map Prod.fst
  · obtain ⟨held, isHeld, within, left⟩ := leaves.touched listed
    simp only [available, isHeld, Option.getD_some]
    split at left
    next used =>
      rw [Option.map_eq_none_iff] at left
      rw [left, used]
      exact Nat.zero_add _
    next =>
      obtain ⟨entry, isLeft, rest⟩ := Option.map_eq_some_iff.mp left
      rw [isLeft, Option.getD_some]
      omega
  · rw [available, leaves.untouched listed, required_eq_zero listed]
    rfl

/-- Adding changes the quantity of one item, and succeeds where the sum fits. -/
theorem add_eq_some_iff {itemId : ItemDefId} {quantity : UInt32}
    : inventory.add itemId quantity = some after
      ↔ (inventory.available itemId).toNat + quantity.toNat < 2 ^ 32
        ∧ after = inventory.insert itemId (inventory.available itemId + quantity) := by
  unfold add
  split
  next fits =>
    rw [and_iff_right fits, Option.some.injEq]
    exact eq_comm
  next exceeds =>
    exact iff_of_false (fun done => nomatch done) (fun both => exceeds both.1)

theorem available_add {itemId : ItemDefId} {quantity : UInt32}
    (done : inventory.add itemId quantity = some after) (other : ItemDefId)
    : (after.available other).toNat
      = (inventory.available other).toNat + if other = itemId then quantity.toNat else 0 := by
  obtain ⟨fits, rfl⟩ := add_eq_some_iff.mp done
  by_cases same : other = itemId
  · subst same
    rw [if_pos rfl, available, Finmap.lookup_insert, Option.getD_some, UInt32.toNat_add,
      Nat.mod_eq_of_lt fits]
  · rw [if_neg same, available, Finmap.lookup_insert_of_ne _ same]
    rfl

end Inventory

namespace CraftingRegistry

variable {registry : CraftingRegistry} {recipeId : RecipeId} {playerLevel : UInt32}
  {inventory : Inventory}

-----------------------------------------------------------------------------------------
-- Crafting
-----------------------------------------------------------------------------------------

/-- What the check asks for: the level, and of each line by itself that it is available. -/
def Passes (recipe : CraftingRecipe) (playerLevel : UInt32) (inventory : Inventory) : Prop :=
  recipe.requiredLevel ≤ playerLevel
  ∧ ∀ line ∈ recipe.materials, line.2 ≤ inventory.available line.1

/-- The check reports success exactly where a recipe is found and passes. -/
theorem canCraft_cases (registry : CraftingRegistry) (recipeId : RecipeId)
    (playerLevel : UInt32) (inventory : Inventory)
    : (∃ recipe,
        registry.get recipeId = some recipe
        ∧ Passes recipe playerLevel inventory
        ∧ registry.canCraft recipeId playerLevel inventory
          = .success recipeId recipe.resultItemId recipe.resultQuantity)
      ∨ (∀ recipe, registry.get recipeId = some recipe → ¬ Passes recipe playerLevel inventory)
        ∧ ∀ id itemId quantity,
            registry.canCraft recipeId playerLevel inventory ≠ .success id itemId quantity := by
  unfold canCraft
  cases found : registry.get recipeId with
  | none => exact Or.inr ⟨by simp, by simp⟩
  | some recipe =>
      have nothing
          : missing recipe.materials inventory = []
            ↔ ∀ line ∈ recipe.materials, line.2 ≤ inventory.available line.1 := by
        simp [missing, List.filterMap_eq_nil_iff]
      by_cases low : playerLevel < recipe.requiredLevel
      · right
        simp only [low, if_true]
        refine ⟨?_, by simp⟩
        rintro _ ⟨⟩ ⟨level, -⟩
        exact UInt32.not_le.mpr low level
      · by_cases short : missing recipe.materials inventory = []
        · left
          refine ⟨recipe, rfl, ⟨UInt32.not_lt.mp low, nothing.mp short⟩, ?_⟩
          simp [low, short]
        · right
          simp only [low, if_false, ne_eq, short, not_false_eq_true, if_true]
          refine ⟨?_, by simp⟩
          rintro _ ⟨⟩ ⟨-, lines⟩
          exact short (nothing.mpr lines)

/-- A successful attempt is a consumption and an addition. -/
theorem conserves_of_passes {recipe : CraftingRecipe}
    (found : registry.get recipeId = some recipe) (passes : Passes recipe playerLevel inventory)
    : registry.Conserves recipeId playerLevel inventory
      ↔ ∃ left after,
          inventory.consumeAll recipe.materials = some left
          ∧ left.add recipe.resultItemId recipe.resultQuantity = some after := by
  obtain ⟨same, found', -, succeeds⟩ :=
    (registry.canCraft_cases recipeId playerLevel inventory).resolve_right
      (fun fails => fails.1 recipe found passes)
  obtain rfl := Option.some.inj (found.symm.trans found')
  unfold Conserves executeCraft
  simp only [succeeds, found]
  constructor
  · rintro ⟨result, after, done, -⟩
    split at done
    next => cases done
    next left consumed =>
      split at done
      next => cases done
      next added => exact ⟨left, _, consumed, added⟩
  · rintro ⟨left, after, consumed, added⟩
    refine
      ⟨.success recipeId recipe.resultItemId recipe.resultQuantity, after,
        by simp only [consumed, added], recipe, rfl, fun itemId => ?_⟩
    have taken := Inventory.available_consumeAll consumed itemId
    rw [Inventory.available_add added itemId]
    omega

/-- An attempt that does not succeed changes nothing. -/
theorem conserves_of_fails
    (fails
      : ∀ id itemId quantity,
          registry.canCraft recipeId playerLevel inventory ≠ .success id itemId quantity)
    : registry.Conserves recipeId playerLevel inventory := by
  unfold Conserves executeCraft
  cases result : registry.canCraft recipeId playerLevel inventory with
  | success id itemId quantity => exact absurd result (fails id itemId quantity)
  | missingMaterials missing => exact ⟨_, inventory, rfl, rfl⟩
  | levelTooLow required current => exact ⟨_, inventory, rfl, rfl⟩
  | recipeNotFound id => exact ⟨_, inventory, rfl, rfl⟩

/-- Whether crafting conserves items is decided by the recipe that passes the check. -/
theorem conserves_iff_crafts
    : registry.Conserves recipeId playerLevel inventory
      ↔ ∀ recipe,
          registry.get recipeId = some recipe → Passes recipe playerLevel inventory →
            ∃ left after,
              inventory.consumeAll recipe.materials = some left
              ∧ left.add recipe.resultItemId recipe.resultQuantity = some after := by
  rcases registry.canCraft_cases recipeId playerLevel inventory with
    ⟨recipe, found, passes, -⟩ | ⟨nothing, fails⟩
  · rw [conserves_of_passes found passes]
    constructor
    · rintro holds other found' -
      obtain rfl := Option.some.inj (found.symm.trans found')
      exact holds
    · exact fun all => all recipe found passes
  · exact iff_of_true (conserves_of_fails fails)
      fun recipe found passes => absurd passes (nothing recipe found)

/-- A consumption and an addition go through exactly when every line is covered and the result
fits.
-/
theorem crafts_iff {recipe : CraftingRecipe}
    : (∃ left after,
        inventory.consumeAll recipe.materials = some left
        ∧ left.add recipe.resultItemId recipe.resultQuantity = some after)
      ↔ inventory.CoversAll recipe.materials
        ∧ (inventory.available recipe.resultItemId).toNat + recipe.resultQuantity.toNat
          < 2 ^ 32 + required recipe.resultItemId recipe.materials := by
  rw [← Inventory.consumeAll_eq_some_iff]
  constructor
  · rintro ⟨left, after, consumed, added⟩
    have taken := Inventory.available_consumeAll consumed recipe.resultItemId
    have fits := (Inventory.add_eq_some_iff.mp added).1
    exact ⟨⟨left, consumed⟩, by omega⟩
  · rintro ⟨⟨left, consumed⟩, fits⟩
    have taken := Inventory.available_consumeAll consumed recipe.resultItemId
    exact ⟨left, _, consumed, Inventory.add_eq_some_iff.mpr ⟨by omega, rfl⟩⟩

/-- For every registry, recipe, level and inventory: crafting conserves items exactly when the
check fails, or every line is covered after those before it and the result fits.
-/
theorem conserves_iff (registry : CraftingRegistry) (recipeId : RecipeId) (playerLevel : UInt32)
    (inventory : Inventory)
    : registry.Conserves recipeId playerLevel inventory
      ↔ ∀ recipe,
          registry.get recipeId = some recipe → Passes recipe playerLevel inventory →
            inventory.CoversAll recipe.materials
            ∧ (inventory.available recipe.resultItemId).toNat + recipe.resultQuantity.toNat
              < 2 ^ 32 + required recipe.resultItemId recipe.materials := by
  simp only [conserves_iff_crafts, crafts_iff]

section Failures

/-- A registry of recipes for one unit of item 1. -/
def ofMaterials (materials : List (ItemDefId × UInt32)) : CraftingRegistry :=
  new.register
    { id := 1, materials, resultItemId := 1, resultQuantity := 1, requiredLevel := 1 }

/-- Two lines of one item each pass the check and together require more than there is; a line
of zero passes it without an entry; and the result does not fit.
-/
theorem conserves_fails
    : ¬ (ofMaterials [(31, 3), (31, 3)]).Conserves 1 1 (Finmap.singleton 31 5)
      ∧ ¬ (ofMaterials [(31, 0)]).Conserves 1 1 ∅
      ∧ ¬ (ofMaterials []).Conserves 1 1 (Finmap.singleton 1 4294967295) := by
  have ends {registry : CraftingRegistry} {inventory : Inventory}
      (ended : (registry.executeCraft 1 1 inventory).isNone)
      : ¬ registry.Conserves 1 1 inventory := by
    rintro ⟨result, after, done, -⟩
    rw [done] at ended
    cases ended
  exact ⟨ends (by decide +kernel), ends (by decide +kernel), ends (by decide +kernel)⟩

end Failures

-----------------------------------------------------------------------------------------
-- Plain recipes
-----------------------------------------------------------------------------------------

/-- Every material is required once, and not zero times. -/
def Plain (recipe : CraftingRecipe) : Prop :=
  (recipe.materials.map Prod.fst).Nodup
  ∧ ∀ line ∈ recipe.materials, 0 < line.2

/-- The check is enough for a plain recipe. -/
theorem Plain.coversAll {recipe : CraftingRecipe} (plain : Plain recipe)
    (passes : Passes recipe playerLevel inventory)
    : inventory.CoversAll recipe.materials := by
  obtain ⟨distinct, positive⟩ := plain
  intro earlier line later split
  have member : line ∈ recipe.materials := by simp [split]
  have once : line.1 ∉ earlier.map Prod.fst := by
    rw [split, List.map_append, List.map_cons] at distinct
    exact fun listed =>
      (List.nodup_append.mp distinct).2.2 line.1 listed line.1 List.mem_cons_self rfl
  have enough := UInt32.le_iff_toNat_le.mp (passes.2 line member)
  have some := UInt32.lt_iff_toNat_lt.mp (positive line member)
  refine ⟨?_, ?_, fun listed => absurd listed once⟩
  · by_contra absent
    rw [Inventory.available, Finmap.lookup_eq_none.mpr absent] at enough
    exact absurd (Nat.lt_of_lt_of_le some enough) (Nat.lt_irrefl _)
  · rw [Inventory.required_eq_zero once, Nat.zero_add]
    exact enough

/-- A registered recipe has been there or is one of the new ones. -/
theorem mem_of_get_foldl {recipes : List CraftingRecipe} {id : RecipeId}
    {recipe : CraftingRecipe}
    (found : (recipes.foldl register registry).get id = some recipe)
    : recipe ∈ recipes ∨ registry.get id = some recipe := by
  induction recipes generalizing registry with
  | nil => exact Or.inr found
  | cons first rest ih =>
      rcases ih found with later | before
      · exact Or.inl (List.mem_cons_of_mem first later)
      · rw [get, register, FinMap.lookup_insert_eq] at before
        split at before
        next => exact Or.inl (Option.some.inj before ▸ List.mem_cons_self)
        next => exact Or.inr before

/-- With the built-in recipes, crafting conserves items unless the result does not fit. -/
theorem conserves_defaultRegistry_iff
    : defaultRegistry.Conserves recipeId playerLevel inventory
      ↔ ∀ recipe,
          defaultRegistry.get recipeId = some recipe → Passes recipe playerLevel inventory →
            (inventory.available recipe.resultItemId).toNat + recipe.resultQuantity.toNat
            < 2 ^ 32 + required recipe.resultItemId recipe.materials := by
  have plain : ∀ recipe ∈ defaultRecipes, Plain recipe := by
    simp [defaultRecipes, defaultRecipes.recipe, Plain, or_imp, forall_and]
  rw [conserves_iff_crafts]
  apply forall_congr'
  intro recipe
  apply forall_congr'
  intro found
  have listed : recipe ∈ defaultRecipes := by
    rcases mem_of_get_foldl found with listed | before
    · exact listed
    · cases before
  apply forall_congr'
  intro passes
  rw [crafts_iff, and_iff_right ((plain recipe listed).coversAll passes)]

end CraftingRegistry

end VeloChain
