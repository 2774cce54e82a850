import VeloChain.GameEngine.Restart
import VeloChain.Lib.CallTrace
import VeloChain.Lib.MapLoops

/-! Spawn counts and the NPCs that are there.
Each NPC is counted by a spawn point of its type when it is spawned, and nothing takes the count
back when it dies. So the counts are those of the living NPCs exactly as long as no NPC has been
killed; only an attack of a player kills one.
-/

namespace VeloChain

variable {F : Type}

namespace Component

/-- An NPC component of the given type. -/
def isNpcOf (npcType : String) : Component F → Bool
  | .npc info => info.npcType == npcType
  | _ => false

variable [F32 F]

/-- A health component that is used up. -/
def isExhausted : Component F → Bool
  | .health points => F32.le points.current 0.0
  | _ => false

/-- A health component that one more attack uses up. -/
def isFatallyHit : Component F → Bool
  | .health points => F32.le (points.current - (10.0 : F)) 0.0
  | _ => false

end Component

namespace EcsWorld

/-- How many NPCs of a type there are, dead or alive. -/
def npcCount (npcType : String) (world : EcsWorld F) : Nat :=
  world.entities.count (fun components => components.any (Component.isNpcOf npcType))

/-- How many living NPCs of a type there are. -/
def livingNpcs (npcType : String) (world : EcsWorld F) : Nat :=
  world.entities.count (fun components =>
    components.any (Component.isNpcOf npcType) && !components.any Systems.isDead)

/-- There is a dead NPC. -/
def HasDeadNpc (world : EcsWorld F) : Prop :=
  ∃ entity components,
    world.getComponents entity = some components
    ∧ components.any Component.isNpc = true
    ∧ components.any Systems.isDead = true

end EcsWorld

/-- How many NPCs of a type the spawn points have counted. -/
def SpawnManager.counted (npcType : String) (manager : SpawnManager F) : Nat :=
  ((manager.spawnPoints.filter (fun point => point.archetype == npcType)).map
    (fun point => point.currentCount.toNat)).sum

/-- The living NPCs of each type are those that its spawn points count. -/
def GameWorld.Accounted (world : GameWorld F) : Prop :=
  ∀ npcType, world.ecs.livingNpcs npcType = world.spawnManager.counted npcType

-----------------------------------------------------------------------------------------
-- Changes of single entities
-----------------------------------------------------------------------------------------

/-- Whoever is not dead has health left. -/
def Healthy [F32 F] (components : List (Component F)) : Prop :=
  components.any Systems.isDead = false → components.any Component.isExhausted = false

/-- What a step does to the components of an entity. An NPC that is no player stays healthy, and
it is dead afterwards when it was before or is killed.
-/
structure Changes [F32 F] (killed : Prop) (before after : List (Component F)) : Prop where
  npcType
    : ∀ npcType,
        after.any (Component.isNpcOf npcType) = before.any (Component.isNpcOf npcType)
  player : after.any Component.isPlayer = before.any Component.isPlayer
  health
    : before.any Component.isPlayer = false → Healthy before →
        Healthy after
        ∧ (after.any Systems.isDead = true ↔ before.any Systems.isDead = true ∨ killed)

theorem any_isNpc_iff {components : List (Component F)}
    : components.any Component.isNpc = true
      ↔ ∃ npcType, components.any (Component.isNpcOf npcType) = true := by
  simp only [List.any_eq_true]
  constructor
  · rintro ⟨component, member, isNpc⟩
    cases component with
    | npc npc => exact ⟨npc.npcType, .npc npc, member, beq_self_eq_true _⟩
    | _ => simp [Component.isNpc] at isNpc
  · rintro ⟨npcType, component, member, isNpc⟩
    refine ⟨component, member, ?_⟩
    cases component with
    | npc npc => rfl
    | _ => simp [Component.isNpcOf] at isNpc

/-- What a map of components does to a test is what it does to the test of each. -/
theorem any_map_of_forall {g : Component F → Component F} {test test' : Component F → Bool}
    (each : ∀ component, test (g component) = test' component)
    (components : List (Component F))
    : (components.map g).any test = components.any test' := by
  rw [List.any_map]
  congr 1
  exact funext each

section Changes

variable [F32 F]

theorem Changes.refl (components : List (Component F)) : Changes False components components :=
  ⟨fun _ => rfl, rfl, fun _ healthy => ⟨healthy, by simp⟩⟩

theorem Changes.isNpc {killed : Prop} {old new : List (Component F)}
    (changes : Changes killed old new)
    : new.any Component.isNpc = true ↔ old.any Component.isNpc = true := by
  simp only [any_isNpc_iff, changes.npcType]

/-- A map that leaves NPCs, players and health as they are kills nobody. -/
theorem Changes.map {g : Component F → Component F}
    (same
      : ∀ component,
          (∀ npcType,
            Component.isNpcOf npcType (g component) = Component.isNpcOf npcType component)
          ∧ Component.isPlayer (g component) = Component.isPlayer component
          ∧ Systems.isDead (g component) = Systems.isDead component
          ∧ Component.isExhausted (g component) = Component.isExhausted component)
    (components : List (Component F))
    : Changes False components (components.map g) where
  npcType := fun t => any_map_of_forall (fun component => (same component).1 t) components
  player := any_map_of_forall (fun component => (same component).2.1) components
  health := by
    intro _ healthy
    unfold Healthy
    rw [any_map_of_forall fun component => (same component).2.2.1,
      any_map_of_forall fun component => (same component).2.2.2]
    exact ⟨healthy, by simp⟩

theorem changes_movedTo (x y z : F) (components : List (Component F))
    : Changes False components (components.map (GameWorld.movedTo x y z)) := by
  apply Changes.map
  intro component
  cases component <;> exact ⟨fun _ => rfl, rfl, rfl, rfl⟩

theorem changes_physicsEntity (components : List (Component F))
    : Changes False components (Systems.physicsEntity components) := by
  unfold Systems.physicsEntity
  split
  next =>
    apply Changes.map
    intro component
    cases component <;> exact ⟨fun _ => rfl, rfl, rfl, rfl⟩
  next => exact .refl components

theorem changes_npcAiEntity (tick : UInt64) (components : List (Component F))
    : Changes False components (Systems.npcAiEntity tick components) := by
  unfold Systems.npcAiEntity
  split
  next =>
    apply Changes.map
    intro component
    cases component <;> exact ⟨fun _ => rfl, rfl, rfl, rfl⟩
  next => exact .refl components

/-- Whoever has health left does not die in the combat system. -/
theorem changes_combatEntity (components : List (Component F))
    : Changes False components (Systems.combatEntity components) where
  npcType := by
    intro t
    apply any_map_of_forall
    intro component
    cases component with
    | health health => simp only; split <;> rfl
    | _ => rfl
  player := by
    apply any_map_of_forall
    intro component
    cases component with
    | health health => simp only; split <;> rfl
    | _ => rfl
  health := by
    intro _ healthy
    have same (alive : components.any Systems.isDead = false)
        : Systems.combatEntity components = components := by
      have left := healthy alive
      unfold Systems.combatEntity
      conv_rhs => rw [← List.map_id components]
      apply List.map_congr_left
      intro component member
      cases component with
      | health health =>
          have notExhausted := List.any_eq_false.mp left _ member
          simp only [Component.isExhausted, Bool.not_eq_true] at notExhausted
          simp only [notExhausted, Bool.false_and, Bool.false_eq_true, if_false, id]
      | _ => rfl
    cases alive : components.any Systems.isDead with
    | false =>
        rw [same alive, alive]
        exact ⟨healthy, by simp⟩
    | true =>
        have still : (Systems.combatEntity components).any Systems.isDead = true := by
          obtain ⟨component, member, dead⟩ := List.any_eq_true.mp alive
          refine List.any_eq_true.mpr ⟨_, List.mem_map_of_mem member, ?_⟩
          cases component with
          | health health => simp only; split <;> [rfl; exact dead]
          | _ => exact dead
        rw [still]
        exact ⟨fun alive => by simp [still] at alive, by simp⟩

/-- Respawning concerns players only. -/
theorem changes_respawned {components : List (Component F)}
    (player : components.any Component.isPlayer = true)
    : Changes False components (components.map Systems.respawned) where
  npcType := by
    intro t
    apply any_map_of_forall
    intro component
    cases component <;> rfl
  player := by
    apply any_map_of_forall
    intro component
    cases component <;> rfl
  health := fun noPlayer => by simp [player] at noPlayer

theorem changes_respawnEntity {components : List (Component F)}
    (player : components.any Component.isPlayer = true)
    : Changes False components (Systems.respawnEntity components) := by
  unfold Systems.respawnEntity
  split
  next => exact changes_respawned player
  next => exact .refl components

/-- An attack kills whom it leaves without health. -/
theorem changes_damaged (components : List (Component F))
    : Changes (components.any Component.isFatallyHit = true) components
        (components.map GameWorld.damaged) where
  npcType := by
    intro t
    apply any_map_of_forall
    intro component
    cases component with
    | health health => simp only [GameWorld.damaged]; split <;> rfl
    | _ => rfl
  player := by
    apply any_map_of_forall
    intro component
    cases component with
    | health health => simp only [GameWorld.damaged]; split <;> rfl
    | _ => rfl
  health := by
    have dead (component : Component F)
        : Systems.isDead (GameWorld.damaged component)
          = (Systems.isDead component || Component.isFatallyHit component) := by
      cases component with
      | health health =>
          unfold GameWorld.damaged
          cases fatal : F32.le (health.current - (10.0 : F)) 0.0 with
          | false => simp [fatal, Component.isFatallyHit, Systems.isDead]
          | true => simp [fatal, Component.isFatallyHit, Systems.isDead]
      | _ => rfl
    have exhausted (component : Component F)
        (used : Component.isExhausted (GameWorld.damaged component) = true)
        : Systems.isDead (GameWorld.damaged component) = true := by
      cases component with
      | health health =>
          simp only [GameWorld.damaged] at used ⊢
          split at used
          next fatal => rw [if_pos fatal]; rfl
          next spared => exact absurd used spared
      | _ => simp [GameWorld.damaged, Component.isExhausted] at used
    intro _ _
    constructor
    · intro alive
      rw [List.any_eq_false] at alive ⊢
      intro component member used
      obtain ⟨old, wasThere, rfl⟩ := List.mem_map.mp member
      exact alive _ member (exhausted old used)
    · rw [any_map_of_forall dead]
      simp only [List.any_eq_true, Bool.or_eq_true]
      constructor
      · rintro ⟨component, member, was | hit⟩
        · exact Or.inl ⟨component, member, was⟩
        · exact Or.inr ⟨component, member, hit⟩
      · rintro (⟨component, member, was⟩ | ⟨component, member, hit⟩)
        · exact ⟨component, member, Or.inl was⟩
        · exact ⟨component, member, Or.inr hit⟩

end Changes

-----------------------------------------------------------------------------------------
-- Changes of the entity world
-----------------------------------------------------------------------------------------

namespace EcsWorld

section Sound

variable [F32 F]

/-- Ids are below the next one, NPCs are no players, and whoever else is not dead has health
left.
-/
structure Sound (world : EcsWorld F) : Prop where
  fresh : ∀ entity ∈ world.entities, entity < world.nextEntityId
  apart
    : ∀ entity components, world.getComponents entity = some components →
        components.any Component.isNpc = true → components.any Component.isPlayer = false
  healthy
    : ∀ entity components, world.getComponents entity = some components →
        components.any Component.isPlayer = false → Healthy components

/-- The entities stay the same and each changes by itself. -/
structure Evolves (killed : EntityId → List (Component F) → Prop) (before after : EcsWorld F)
    : Prop where
  nextEntityId : after.nextEntityId = before.nextEntityId
  entity
    : ∀ entity,
        before.getComponents entity = none ∧ after.getComponents entity = none
        ∨ ∃ old new,
            before.getComponents entity = some old
            ∧ after.getComponents entity = some new
            ∧ Changes (killed entity old) old new

/-- A step of a sound world that spawns no NPC: an NPC dies in it exactly when `killed`. -/
structure KeepsNpcs (killed : Prop) (before after : EcsWorld F) : Prop where
  sound : after.Sound
  npcCount : ∀ npcType, after.npcCount npcType = before.npcCount npcType
  dead : after.HasDeadNpc ↔ before.HasDeadNpc ∨ killed

theorem KeepsNpcs.refl {world : EcsWorld F} (sound : world.Sound)
    : KeepsNpcs False world world :=
  ⟨sound, fun _ => rfl, by simp⟩

/-- A step in which nobody dies and one more. -/
theorem KeepsNpcs.trans {killed : Prop} {before middle after : EcsWorld F}
    (first : KeepsNpcs killed before middle) (second : KeepsNpcs False middle after)
    : KeepsNpcs killed before after where
  sound := second.sound
  npcCount := fun npcType => (second.npcCount npcType).trans (first.npcCount npcType)
  dead := by rw [second.dead, or_false, first.dead]

section Evolves

variable {killed : EntityId → List (Component F) → Prop} {before after : EcsWorld F}
  {entity : EntityId}

/-- An entity that is there afterwards was there before and has changed. -/
theorem Evolves.exists_before (evolves : Evolves killed before after)
    {new : List (Component F)} (found : after.getComponents entity = some new)
    : ∃ old, before.getComponents entity = some old ∧ Changes (killed entity old) old new := by
  rcases evolves.entity entity with ⟨_, none⟩ | ⟨old, new', wasThere, isThere, changes⟩
  · simp [none] at found
  · obtain rfl := Option.some.inj (found.symm.trans isThere)
    exact ⟨old, wasThere, changes⟩

/-- An entity that was there before is there afterwards and has changed. -/
theorem Evolves.exists_after (evolves : Evolves killed before after)
    {old : List (Component F)} (found : before.getComponents entity = some old)
    : ∃ new, after.getComponents entity = some new ∧ Changes (killed entity old) old new := by
  rcases evolves.entity entity with ⟨none, _⟩ | ⟨old', new, wasThere, isThere, changes⟩
  · simp [none] at found
  · obtain rfl := Option.some.inj (found.symm.trans wasThere)
    exact ⟨new, isThere, changes⟩

theorem Evolves.sound (evolves : Evolves killed before after) (sound : before.Sound)
    : after.Sound := by
  constructor
  · intro entity member
    rw [evolves.nextEntityId]
    obtain ⟨new, found⟩ := Option.isSome_iff_exists.mp (mem_entities_iff.mp member)
    obtain ⟨old, wasThere, _⟩ := evolves.exists_before found
    exact sound.fresh entity (mem_entities_iff.mpr (by rw [wasThere]; rfl))
  · intro entity components found isNpc
    obtain ⟨old, wasThere, changes⟩ := evolves.exists_before found
    rw [changes.player]
    exact sound.apart entity old wasThere (changes.isNpc.mp isNpc)
  · intro entity components found noPlayer
    obtain ⟨old, wasThere, changes⟩ := evolves.exists_before found
    rw [changes.player] at noPlayer
    exact (changes.health noPlayer (sound.healthy entity old wasThere noPlayer)).1

theorem Evolves.npcCount (evolves : Evolves killed before after) (npcType : String)
    : after.npcCount npcType = before.npcCount npcType := by
  apply FinMap.count_congr
  intro entity
  change (after.getComponents entity).any _ = (before.getComponents entity).any _
  rcases evolves.entity entity with ⟨none, none'⟩ | ⟨old, new, wasThere, isThere, changes⟩
  · rw [none, none']
  · rw [wasThere, isThere, Option.any_some, Option.any_some, changes.npcType]

/-- An NPC is dead afterwards exactly when it was dead before or is killed. -/
theorem Sound.isDead_iff (sound : before.Sound) {dies : Prop} {old new : List (Component F)}
    (found : before.getComponents entity = some old) (isNpc : old.any Component.isNpc = true)
    (changes : Changes dies old new)
    : new.any Systems.isDead = true ↔ old.any Systems.isDead = true ∨ dies := by
  have noPlayer := sound.apart entity old found isNpc
  exact (changes.health noPlayer (sound.healthy entity old found noPlayer)).2

/-- Changes of single entities keep the world sound; the dead NPCs are those of before and those
that are killed.
-/
theorem Evolves.keepsNpcs (evolves : Evolves killed before after) (sound : before.Sound)
    : KeepsNpcs
        (∃ entity components,
          before.getComponents entity = some components
          ∧ components.any Component.isNpc = true
          ∧ killed entity components)
        before after where
  sound := evolves.sound sound
  npcCount := evolves.npcCount
  dead := by
    constructor
    · rintro ⟨entity, new, found, isNpc, dead⟩
      obtain ⟨old, wasThere, changes⟩ := evolves.exists_before found
      have wasNpc := changes.isNpc.mp isNpc
      rcases (sound.isDead_iff wasThere wasNpc changes).mp dead with was | dies
      · exact Or.inl ⟨entity, old, wasThere, wasNpc, was⟩
      · exact Or.inr ⟨entity, old, wasThere, wasNpc, dies⟩
    · rintro (⟨entity, old, found, isNpc, dead⟩ | ⟨entity, old, found, isNpc, dies⟩)
      · obtain ⟨new, isThere, changes⟩ := evolves.exists_after found
        exact ⟨entity, new, isThere, changes.isNpc.mpr isNpc,
          (sound.isDead_iff found isNpc changes).mpr (Or.inl dead)⟩
      · obtain ⟨new, isThere, changes⟩ := evolves.exists_after found
        exact ⟨entity, new, isThere, changes.isNpc.mpr isNpc,
          (sound.isDead_iff found isNpc changes).mpr (Or.inr dies)⟩

end Evolves

/-- Changing one entity in place. -/
theorem evolves_updateComponents {f : List (Component F) → List (Component F)}
    (killed : List (Component F) → Prop) {world : EcsWorld F} (entity : EntityId)
    (changes
      : ∀ components, world.getComponents entity = some components →
          Changes (killed components) components (f components))
    : Evolves (fun other components => other = entity ∧ killed components) world
        (world.updateComponents entity f) where
  nextEntityId := rfl
  entity := by
    intro other
    rw [getComponents_updateComponents]
    cases found : world.getComponents other with
    | none => simp
    | some components =>
        right
        split
        next same =>
          subst same
          refine ⟨components, f components, rfl, rfl, ?_⟩
          simpa using changes components found
        next notSame =>
          refine ⟨components, components, rfl, rfl, ?_⟩
          simpa [notSame] using Changes.refl components

/-- A system that kills nobody changes each entity by itself. -/
theorem evolves_runSystem {f : List (Component F) → List (Component F)}
    {matcher : Component F → Bool}
    (changes
      : ∀ components, components.any matcher = true → Changes False components (f components))
    (order : EntityOrder F) (world : EcsWorld F)
    : Evolves (fun _ _ => False) world (Systems.runSystem order matcher f world) where
  nextEntityId := rfl
  entity := by
    intro entity
    rw [Systems.getComponents_runSystem]
    cases world.getComponents entity with
    | none => simp
    | some components =>
        refine Or.inr ⟨components, _, rfl, rfl, ?_⟩
        simp only
        split
        next isMatch => exact changes components isMatch
        next => exact .refl components

theorem keepsNpcs_runSystem {f : List (Component F) → List (Component F)}
    {matcher : Component F → Bool}
    (changes
      : ∀ components, components.any matcher = true → Changes False components (f components))
    (order : EntityOrder F) {world : EcsWorld F} (sound : world.Sound)
    : KeepsNpcs False world (Systems.runSystem order matcher f world) := by
  have keeps := (evolves_runSystem changes order world).keepsNpcs sound
  simpa using keeps

/-- The systems of a tick kill nobody who has health left. -/
theorem keepsNpcs_runTick (order : Systems.SystemOrder F) (tick : UInt64) {world : EcsWorld F}
    (sound : world.Sound)
    : KeepsNpcs False world (Systems.runTick order tick world) := by
  have physics : KeepsNpcs False world (Systems.physicsSystem order.physics world) :=
    keepsNpcs_runSystem (fun components _ => changes_physicsEntity components) _ sound
  have npcAi : KeepsNpcs False _ (Systems.npcAiSystem order.npcAi tick _) :=
    keepsNpcs_runSystem (fun components _ => changes_npcAiEntity tick components) _ physics.sound
  have combat : KeepsNpcs False _ (Systems.combatSystem order.combat _) :=
    keepsNpcs_runSystem (fun components _ => changes_combatEntity components) _ npcAi.sound
  have respawn : KeepsNpcs False _ (Systems.respawnSystem order.respawn _) :=
    keepsNpcs_runSystem (fun _ player => changes_respawnEntity player) _ combat.sound
  exact ((physics.trans npcAi).trans combat).trans respawn

/-- A new entity that is not a dead NPC is counted when it is an NPC of the type. -/
theorem Sound.spawn {world : EcsWorld F} (sound : world.Sound)
    (components : List (Component F))
    (apart
      : components.any Component.isNpc = true → components.any Component.isPlayer = false)
    (healthy : components.any Component.isPlayer = false → Healthy components)
    (alive
      : components.any Component.isNpc = true → components.any Systems.isDead = false)
    : (world.spawn components).Sound
      ∧ (∀ npcType,
        (world.spawn components).npcCount npcType
          = world.npcCount npcType
            + (if components.any (Component.isNpcOf npcType) then 1 else 0))
      ∧ ((world.spawn components).HasDeadNpc ↔ world.HasDeadNpc) := by
  have new : world.nextEntityId ∉ world.entities := fun member =>
    absurd (sound.fresh _ member) (Nat.lt_irrefl _)
  have other {entity : EntityId} {found : List (Component F)}
      (isThere : world.getComponents entity = some found) : entity ≠ world.nextEntityId := by
    rintro rfl
    exact new (mem_entities_iff.mpr (by rw [isThere]; rfl))
  refine ⟨⟨?_, ?_, ?_⟩, fun _ => FinMap.count_insert_of_notMem new components, ?_⟩
  · intro entity member
    rw [mem_entities_iff, getComponents_spawn] at member
    change entity < world.nextEntityId + 1
    split at member
    next same => exact same ▸ Nat.lt_succ_self _
    next => exact Nat.lt_succ_of_lt (sound.fresh entity (mem_entities_iff.mpr member))
  · intro entity found isThere
    rw [getComponents_spawn] at isThere
    split at isThere
    next =>
      obtain rfl := Option.some.inj isThere
      exact apart
    next => exact sound.apart entity found isThere
  · intro entity found isThere
    rw [getComponents_spawn] at isThere
    split at isThere
    next =>
      obtain rfl := Option.some.inj isThere
      exact healthy
    next => exact sound.healthy entity found isThere
  · constructor
    · rintro ⟨entity, found, isThere, isNpc, dead⟩
      rw [getComponents_spawn] at isThere
      split at isThere
      next =>
        obtain rfl := Option.some.inj isThere
        rw [alive isNpc] at dead
        exact absurd dead Bool.false_ne_true
      next => exact ⟨entity, found, isThere, isNpc, dead⟩
    · rintro ⟨entity, found, isThere, isNpc, dead⟩
      refine ⟨entity, found, ?_, isNpc, dead⟩
      rw [getComponents_spawn, if_neg (other isThere), isThere]

end Sound

/-- The living NPCs of every type are all of its NPCs exactly when none is dead. -/
theorem livingNpcs_eq_npcCount_iff {world : EcsWorld F}
    : (∀ npcType, world.livingNpcs npcType = world.npcCount npcType) ↔ ¬ world.HasDeadNpc := by
  have le (npcType : String) (entity : EntityId)
      (living
        : (world.entities.lookup entity).any (fun components =>
            components.any (Component.isNpcOf npcType) && !components.any Systems.isDead))
      : (world.entities.lookup entity).any
          (fun components => components.any (Component.isNpcOf npcType)) := by
    obtain ⟨components, found, passes⟩ := (Option.any_eq_true _ _).mp living
    rw [found]
    exact (Bool.and_eq_true_iff.mp passes).1
  constructor
  · rintro same ⟨entity, components, found, isNpc, dead⟩
    obtain ⟨npcType, ofType⟩ := any_isNpc_iff.mp isNpc
    have found : world.entities.lookup entity = some components := found
    have fewer : world.livingNpcs npcType < world.npcCount npcType := by
      apply @FinMap.count_lt_count _ _ _ _ _ _ _ (le npcType) entity
      · simpa [found] using ofType
      · simp [found, dead]
    exact absurd (same npcType) (Nat.ne_of_lt fewer)
  · intro noneDead npcType
    apply FinMap.count_congr
    intro entity
    cases found : world.entities.lookup entity with
    | none => rfl
    | some components =>
        rw [Option.any_some, Option.any_some]
        cases ofType : components.any (Component.isNpcOf npcType) with
        | false => rfl
        | true =>
            have alive : components.any Systems.isDead = false := by
              by_contra dead
              exact noneDead ⟨entity, components, found, any_isNpc_iff.mpr ⟨npcType, ofType⟩,
                Bool.eq_true_of_not_eq_false dead⟩
            rw [alive]
            rfl

end EcsWorld

-----------------------------------------------------------------------------------------
-- Actions
-----------------------------------------------------------------------------------------

namespace GameWorld

section Actions

variable [F32 F]

/-- The action is an attack that uses up the health of an NPC. -/
def killsNpc (action : GameAction) (ecs : EcsWorld F) : Bool :=
  match action with
  | .attack target =>
      (ecs.getComponents target).any (fun components =>
        components.any Component.isNpc && components.any Component.isFatallyHit)
  | _ => false

/-- The actions of a tick one by one, with the entities each of them finds. -/
def actionTurns (order : Nat → EntityOrder F) (actions : List (String × GameAction))
    (ecs : EcsWorld F) : List (Loop.Turn ((String × GameAction) × Nat) (EcsWorld F)) :=
  Loop.turns
    (fun (entry : (String × GameAction) × Nat) =>
      processAction (order entry.2) entry.1.1 entry.1.2)
    actions.zipIdx ecs

theorem keepsNpcs_spawnPlayer {ecs : EcsWorld F} (sound : ecs.Sound) (address : String)
    (x y z : F)
    : EcsWorld.KeepsNpcs False ecs (spawnPlayer address x y z ecs) := by
  obtain ⟨sound, count, dead⟩ :=
    sound.spawn (playerComponents address x y z) (by intro isNpc; cases isNpc)
      (by intro noPlayer; cases noPlayer) (by intro isNpc; cases isNpc)
  exact ⟨sound, count, by rw [or_false]; exact dead⟩

/-- An action kills an NPC exactly when it is an attack that uses up its health. -/
theorem keepsNpcs_processAction {ecs : EcsWorld F} (sound : ecs.Sound) (order : EntityOrder F)
    (address : String) (action : GameAction)
    : EcsWorld.KeepsNpcs (killsNpc action ecs = true) ecs
        (processAction order address action ecs).2 := by
  have idle : EcsWorld.KeepsNpcs (false = true) ecs ecs := by
    simpa using EcsWorld.KeepsNpcs.refl sound
  cases action with
  | move x y z =>
      cases found : findPlayerEntity order address ecs with
      | none =>
          simp only [processAction, found, killsNpc, Bool.false_eq_true]
          exact keepsNpcs_spawnPlayer sound _ _ _ _
      | some entity =>
          simp only [processAction, found, killsNpc, Bool.false_eq_true]
          have evolves := EcsWorld.evolves_updateComponents (fun _ => False) entity
            (fun components (_ : ecs.getComponents entity = some components) =>
              changes_movedTo (milliunits x) (milliunits y) (milliunits z) components)
          simpa using evolves.keepsNpcs sound
  | attack target =>
      cases found : ecs.getComponents target with
      | none =>
          simp only [processAction, found, killsNpc, Option.any_none]
          exact idle
      | some components =>
          simp only [processAction, found, killsNpc, Option.any_some]
          have evolves := EcsWorld.evolves_updateComponents
            (fun components => components.any Component.isFatallyHit = true) target
            (fun components (_ : ecs.getComponents target = some components) =>
              changes_damaged components)
          have keeps := evolves.keepsNpcs sound
          refine ⟨keeps.sound, keeps.npcCount, keeps.dead.trans (or_congr_right ?_)⟩
          simp [found]
  | respawn =>
      cases found : findPlayerEntity order address ecs with
      | none =>
          simp only [processAction, found, killsNpc]
          exact idle
      | some entity =>
          simp only [processAction, found, killsNpc, Bool.false_eq_true]
          have linked : ecs.IsPlayer address entity := List.find?_some found
          have player (components : List (Component F))
              (isThere : ecs.getComponents entity = some components)
              : components.any Component.isPlayer = true := by
            have isPlayer := hasComponent_isPlayer linked
            rwa [EcsWorld.hasComponent, isThere] at isPlayer
          have evolves := EcsWorld.evolves_updateComponents (fun _ => False) entity
            (fun components isThere => changes_respawned (player components isThere))
          simpa using evolves.keepsNpcs sound
  | interact target => exact idle
  | placeBlock x y z blockType => exact idle
  | breakBlock x y z => exact idle
  | craft recipe => exact idle
  | chat message => exact idle

/-- Sound, with as many NPCs of every type as `start` has. -/
def KeepsCounts (start state : EcsWorld F) : Prop :=
  state.Sound ∧ ∀ npcType, state.npcCount npcType = start.npcCount npcType

/-- An NPC dies by the actions of a tick exactly when one of them kills one. -/
theorem keepsNpcs_processActions {ecs : EcsWorld F} (sound : ecs.Sound)
    (order : Nat → EntityOrder F) (actions : List (String × GameAction))
    : EcsWorld.KeepsNpcs
        (∃ turn ∈ actionTurns order actions ecs,
          killsNpc turn.item.1.2 turn.before = true)
        ecs (processActions order actions ecs).2 := by
  have step (entry : (String × GameAction) × Nat) (state : EcsWorld F)
      (kept : KeepsCounts ecs state) :=
    keepsNpcs_processAction kept.1 (order entry.2) entry.1.1 entry.1.2
  have stays (entry : (String × GameAction) × Nat) (state : EcsWorld F)
      (kept : KeepsCounts ecs state)
      : KeepsCounts ecs (processAction (order entry.2) entry.1.1 entry.1.2 state).2 :=
    ⟨(step entry state kept).sound,
      fun npcType => ((step entry state kept).npcCount npcType).trans (kept.2 npcType)⟩
  have start : KeepsCounts ecs ecs := ⟨sound, fun _ => rfl⟩
  have kept : KeepsCounts ecs (processActions order actions ecs).2 :=
    Loop.run_invariant (KeepsCounts ecs) (fun entry _ => stays entry) start
  refine ⟨kept.1, kept.2, ?_⟩
  exact Loop.holds_iff_of_turns (KeepsCounts ecs) EcsWorld.HasDeadNpc
    (fun entry _ state kept => ⟨stays entry state kept, (step entry state kept).dead⟩) start

end Actions

-----------------------------------------------------------------------------------------
-- Spawns
-----------------------------------------------------------------------------------------

section Spawns

variable [F32 F]

/-- The builder makes living NPCs of the type it is asked for. -/
def BuildsNpcs (archetypes : List (NpcArchetype F))
    (build
      : NpcArchetype F → String → F × F × F → List (F × F × F) → List (Component F)) : Prop :=
  ∀ archetype ∈ archetypes, ∀ npcType position waypoints,
    let components := build archetype npcType position waypoints
    (∀ other, components.any (Component.isNpcOf other) = (npcType == other))
    ∧ components.any Component.isPlayer = false
    ∧ components.any Systems.isDead = false
    ∧ components.any Component.isExhausted = false

/-- Spawning NPCs of known types counts each of them, by induction on the spawns. -/
theorem npcCount_spawnNpcs
    {build
      : NpcArchetype F → String → F × F × F → List (F × F × F) → List (Component F)}
    {manager : SpawnManager F} (builds : BuildsNpcs manager.archetypes build)
    {spawns : List (String × (F × F × F) × List (F × F × F))}
    (known : ∀ wanted ∈ spawns, (manager.getArchetype wanted.1).isSome)
    {ecs : EcsWorld F} (sound : ecs.Sound)
    : (spawnNpcs build manager spawns ecs).Sound
      ∧ (∀ npcType,
        (spawnNpcs build manager spawns ecs).npcCount npcType
          = ecs.npcCount npcType + spawns.countP (fun wanted => wanted.1 == npcType))
      ∧ ((spawnNpcs build manager spawns ecs).HasDeadNpc ↔ ecs.HasDeadNpc) := by
  induction spawns generalizing ecs with
  | nil => exact ⟨sound, fun _ => rfl, Iff.rfl⟩
  | cons wanted rest ih =>
      obtain ⟨archetype, found⟩ := Option.isSome_iff_exists.mp (known _ List.mem_cons_self)
      obtain ⟨types, noPlayer, alive, healthy⟩ :=
        builds archetype (List.mem_of_find?_eq_some found) wanted.1 wanted.2.1 wanted.2.2
      obtain ⟨spawned, counts, dead⟩ :=
        sound.spawn (build archetype wanted.1 wanted.2.1 wanted.2.2) (fun _ => noPlayer)
          (fun _ _ => healthy) (fun _ => alive)
      have first
          : spawnNpc build manager ecs wanted
            = ecs.spawn (build archetype wanted.1 wanted.2.1 wanted.2.2) := by
        simp only [spawnNpc, found]
      obtain ⟨kept, total, deadLater⟩ :=
        ih (fun w member => known w (List.mem_cons_of_mem _ member)) spawned
      unfold spawnNpcs at kept total deadLater ⊢
      rw [List.foldl_cons, first]
      refine ⟨kept, fun npcType => ?_, deadLater.trans dead⟩
      rw [total, counts, types, List.countP_cons]
      omega

theorem buildsNpcs_npcComponents
    (positive
      : ∀ archetype ∈ (SpawnManager.defaultArchetypes : List (NpcArchetype F)),
          F32.le archetype.maxHealth 0.0 = false)
    : BuildsNpcs SpawnManager.defaultArchetypes (npcComponents (F := F)) := by
  intro archetype member npcType position waypoints
  have left := positive archetype member
  refine ⟨fun other => ?_, rfl, rfl, ?_⟩
  · simp [npcComponents, Component.isNpcOf]
  · simp [npcComponents, Component.isExhausted, left]

theorem buildsNpcs_initialNpcComponents
    (positive
      : ∀ archetype ∈ (SpawnManager.defaultArchetypes : List (NpcArchetype F)),
          F32.le archetype.maxHealth 0.0 = false)
    : BuildsNpcs SpawnManager.defaultArchetypes (initialNpcComponents (F := F)) := by
  intro archetype member npcType position waypoints
  have left := positive archetype member
  unfold initialNpcComponents
  split
  next =>
    refine ⟨fun other => ?_, rfl, rfl, ?_⟩
    · simp [npcComponents, isCombat, Component.isNpcOf]
    · simp [npcComponents, isCombat, Component.isExhausted, left]
  next => exact buildsNpcs_npcComponents positive archetype member npcType position waypoints

end Spawns

end GameWorld

namespace SpawnManager

/-- What a tick spawns of a type is what its spawn points count more, by induction on them. -/
theorem counted_tickSpawns (npcType : String) (manager : SpawnManager F)
    : manager.tickSpawns.2.counted npcType
      = manager.counted npcType
        + manager.tickSpawns.1.countP (fun wanted => wanted.1 == npcType) := by
  unfold counted tickSpawns
  induction manager.spawnPoints with
  | nil => rfl
  | cons point rest ih =>
      have archetype := archetype_tickSpawnPoint point
      have count
          : (tickSpawnPoint point).2.currentCount.toNat
            = point.currentCount.toNat + (if (tickSpawnPoint point).1 then 1 else 0) := by
        unfold tickSpawnPoint
        split
        next room =>
          split
          next => rfl
          next =>
            have below : point.currentCount.toNat < point.maxCount.toNat := room
            have small := point.maxCount.toNat_lt
            change (point.currentCount + 1).toNat = point.currentCount.toNat + 1
            rw [UInt32.toNat_add]
            exact Nat.mod_eq_of_lt (by simp; omega)
        next => rfl
      cases spawns : (tickSpawnPoint point).1 <;> cases ofType : point.archetype == npcType
      all_goals
        simp only [spawns, if_true, Bool.false_eq_true, if_false] at count
        simp only [List.map_cons, List.filter_cons, archetype, spawns, ofType, if_true,
          Bool.false_eq_true, if_false, List.sum_cons, count, List.countP_cons] at ih ⊢
        omega

/-- The spawn points of a new world have counted nothing. -/
theorem counted_generateSpawnPoints [F32 F] (keccak256 : Bytes → B256) (seed : UInt64)
    (npcType : String)
    : (SpawnManager.new.generateSpawnPoints keccak256 seed : SpawnManager F).counted npcType
      = 0 := by
  apply List.sum_eq_zero
  intro count member
  obtain ⟨point, isPoint, rfl⟩ := List.mem_map.mp member
  have isPoint := (List.mem_filter.mp isPoint).1
  simp only [generateSpawnPoints, new, List.nil_append, List.mem_mapIdx] at isPoint
  obtain ⟨index, bound, rfl⟩ := isPoint
  rfl

end SpawnManager

-----------------------------------------------------------------------------------------
-- Ticks
-----------------------------------------------------------------------------------------

namespace GameWorld

section Ticks

variable [F32 F]

/-- Every NPC, dead or alive, is one that a spawn point of its type counts. -/
structure Populated (world : GameWorld F) : Prop where
  sound : world.ecs.Sound
  counted : ∀ npcType, world.ecs.npcCount npcType = world.spawnManager.counted npcType
  known
    : ∀ point ∈ world.spawnManager.spawnPoints,
        (world.spawnManager.getArchetype point.archetype).isSome
  archetypes : world.spawnManager.archetypes = SpawnManager.defaultArchetypes

theorem Populated.accounted_iff {world : GameWorld F} (populated : world.Populated)
    : world.Accounted ↔ ¬ world.ecs.HasDeadNpc := by
  rw [← EcsWorld.livingNpcs_eq_npcCount_iff]
  exact forall_congr' fun npcType => by rw [populated.counted npcType]

/-- No attack of the tick uses up the health of an NPC. -/
def SparesNpcs (order : TickOrder F) (actions : List (String × GameAction))
    (world : GameWorld F) : Prop :=
  ∀ turn ∈ actionTurns order.action actions world.ecs,
    killsNpc turn.item.1.2 turn.before = false

variable {crypto : Crypto} {codec : EcsCodec F}
  (positive
    : ∀ archetype ∈ (SpawnManager.defaultArchetypes : List (NpcArchetype F)),
        F32.le archetype.maxHealth 0.0 = false)

include positive

/-- A world of which nothing but its first spawns is there is populated by the living. -/
theorem populated_spawned {manager : SpawnManager F}
    (known
      : ∀ point ∈ manager.spawnPoints, (manager.getArchetype point.archetype).isSome)
    (defaults : manager.archetypes = SpawnManager.defaultArchetypes)
    (uncounted : ∀ npcType, manager.counted npcType = 0) {world : GameWorld F}
    (ecs
      : world.ecs
        = spawnNpcs initialNpcComponents manager.tickSpawns.2 manager.tickSpawns.1 .new)
    (spawnManager : world.spawnManager = manager.tickSpawns.2)
    : world.Populated ∧ ¬ world.ecs.HasDeadNpc := by
  have builds := buildsNpcs_initialNpcComponents positive
  rw [← defaults] at builds
  have wantedKnown := SpawnManager.Known.wanted known
  have stillKnown := SpawnManager.Known.tickSpawns known
  have empty : (EcsWorld.new : EcsWorld F).Sound :=
    ⟨fun _ member => absurd member Finmap.notMem_empty,
      fun _ _ found => by simp [EcsWorld.getComponents, EcsWorld.new] at found,
      fun _ _ found => by simp [EcsWorld.getComponents, EcsWorld.new] at found⟩
  obtain ⟨sound, counts, dead⟩ :=
    @npcCount_spawnNpcs F _ _ manager.tickSpawns.2 builds _ wantedKnown _ empty
  rw [← ecs] at sound dead
  refine ⟨⟨sound, fun npcType => ?_, spawnManager ▸ stillKnown, spawnManager ▸ defaults⟩,
    fun hasDead => ?_⟩
  · have total := manager.counted_tickSpawns npcType
    rw [uncounted] at total
    rw [ecs, spawnManager]
    exact (counts npcType).trans total.symm
  · obtain ⟨_, _, found, _⟩ := dead.mp hasDead
    simp [EcsWorld.getComponents, EcsWorld.new] at found

theorem populated_new (seed : UInt64)
    : (new crypto.keccak256 seed : GameWorld F).Populated
      ∧ ¬ (new crypto.keccak256 seed : GameWorld F).ecs.HasDeadNpc :=
  populated_spawned positive
    (SpawnManager.unspawned_generateSpawnPoints crypto.keccak256 seed).known rfl
    (SpawnManager.counted_generateSpawnPoints crypto.keccak256 seed) rfl rfl

/-- A tick that succeeds counts what it spawns; there is a dead NPC afterwards when there was
one or an attack has killed one.
-/
theorem populated_tick {world next : GameWorld F} {order : TickOrder F}
    {actions : List (String × GameAction)} {root : B256} (populated : world.Populated)
    (done : tick crypto codec order actions world = (.ok root, next))
    : next.Populated
      ∧ (next.ecs.HasDeadNpc
        ↔ world.ecs.HasDeadNpc ∨ ¬ SparesNpcs order actions world) := by
  have acted := keepsNpcs_processActions populated.sound order.action actions
  unfold tick at done
  simp only at done
  rcases actionsDone : processActions order.action actions world.ecs with ⟨e | _, ecs⟩
  · simp [actionsDone] at done
  · rw [actionsDone] at done acted
    obtain ⟨_, rfl⟩ := Prod.mk.inj done
    have known := SpawnManager.Known.wanted populated.known
    have stillKnown := SpawnManager.Known.tickSpawns populated.known
    have run := EcsWorld.keepsNpcs_runTick order.systems (world.currentTick + 1) acted.sound
    have builds
        : BuildsNpcs world.spawnManager.tickSpawns.2.archetypes (npcComponents (F := F)) := by
      change BuildsNpcs world.spawnManager.archetypes _
      rw [populated.archetypes]
      exact buildsNpcs_npcComponents positive
    obtain ⟨sound, counts, dead⟩ := npcCount_spawnNpcs builds known run.sound
    refine ⟨⟨sound, fun npcType => ?_, stillKnown, populated.archetypes⟩, ?_⟩
    · calc _ = _ := counts npcType
        _ = world.spawnManager.counted npcType + _ := by
            rw [run.npcCount, acted.npcCount, populated.counted]
        _ = world.spawnManager.tickSpawns.2.counted npcType :=
            (SpawnManager.counted_tickSpawns npcType world.spawnManager).symm
    · refine dead.trans (run.dead.trans ?_)
      rw [or_false, acted.dead]
      simp [SparesNpcs]

variable (crypto codec)

omit positive in
/-- One call of `tick`, as far as it succeeds. -/
def tickCall (op : TickOrder F × List (String × GameAction)) (world : GameWorld F)
    : Option (B256 × GameWorld F) :=
  match tick crypto codec op.1 op.2 world with
  | (.ok root, next) => some (root, next)
  | (.error _, _) => none

/-- A new world is accounted for, and a run of successful ticks keeps it so exactly as long as no
attack kills an NPC.
-/
theorem populationAccounting_iff (seed : UInt64)
    (ticks : List (TickOrder F × List (String × GameAction)))
    : (new crypto.keccak256 seed : GameWorld F).Accounted
      ∧ ((∀ turn ∈ CallTrace.calls (tickCall crypto codec) ticks (new crypto.keccak256 seed),
            turn.after.Accounted)
        ↔ ∀ turn ∈ CallTrace.calls (tickCall crypto codec) ticks (new crypto.keccak256 seed),
            SparesNpcs turn.op.1 turn.op.2 turn.before) := by
  obtain ⟨populated, noneDead⟩ := @populated_new F _ crypto positive seed
  have start := populated.accounted_iff.mpr noneDead
  have ticked {op : TickOrder F × List (String × GameAction)} {world next : GameWorld F}
      {root : B256} (populated : world.Populated)
      (returns : tickCall crypto codec op world = some (root, next))
      : next.Populated
        ∧ (next.ecs.HasDeadNpc ↔ world.ecs.HasDeadNpc ∨ ¬ SparesNpcs op.1 op.2 world) := by
    unfold tickCall at returns
    split at returns
    next done =>
      obtain ⟨rfl, rfl⟩ := Prod.mk.inj (Option.some.inj returns)
      exact populated_tick positive populated done
    next => simp at returns
  refine ⟨start, CallTrace.kept_iff Populated Accounted ?_ ?_ populated start⟩
  · intro op world root next populated returns
    exact (ticked populated returns).1
  · intro turn populated accounted returns
    obtain ⟨after, dead⟩ := ticked populated returns
    have noneDead := populated.accounted_iff.mp accounted
    rw [after.accounted_iff, dead]
    simp [noneDead]

end Ticks

/-- The archetypes have positive health in thousandths. -/
theorem positive_milli
    : ∀ archetype ∈ (SpawnManager.defaultArchetypes : List (NpcArchetype Milli)),
        F32.le archetype.maxHealth 0.0 = false := by
  decide +kernel

/-- A tick in which the wolf 4 is attacked, and one in which the rabbit 6 is attacked twice. -/
def hunt : List (TickOrder Milli × List (String × GameAction)) :=
  [ (.uniform ascendingOrder, [("0xa", .attack 4)])
  , (.uniform ascendingOrder, [("0xa", .attack 6), ("0xa", .attack 6)]) ]

theorem populationAccounting_iff_hunt
    : (new hashFromSlice 5 : GameWorld Milli).Accounted
      ∧ ((∀ turn ∈ CallTrace.calls (tickCall .disclosing milliCodec) hunt (new hashFromSlice 5),
            turn.after.Accounted)
        ↔ ∀ turn ∈ CallTrace.calls (tickCall .disclosing milliCodec) hunt (new hashFromSlice 5),
            SparesNpcs turn.op.1 turn.op.2 turn.before) :=
  populationAccounting_iff .disclosing milliCodec positive_milli 5 hunt

/-- The rabbit, which has 15 health, is dead after two attacks and still counted. -/
theorem populationAccounting_fails
    : ¬ ∀ turn ∈ CallTrace.calls (tickCall .disclosing milliCodec) hunt (new hashFromSlice 5),
        turn.after.Accounted := by
  intro claimed
  have rabbits
      : ((CallTrace.calls (tickCall .disclosing milliCodec) hunt (new hashFromSlice 5)).all
          (fun turn =>
            turn.after.ecs.livingNpcs "rabbit" == turn.after.spawnManager.counted "rabbit"))
        = false := by
    decide +kernel
  refine absurd ?_ (Bool.eq_false_iff.mp rabbits)
  rw [List.all_eq_true]
  intro turn member
  exact beq_iff_eq.mpr (claimed turn member "rabbit")

end GameWorld

end VeloChain
