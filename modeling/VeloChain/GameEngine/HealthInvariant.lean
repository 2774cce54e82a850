import VeloChain.GameEngine.Resting

/-! The health of entities over successful ticks.
Health is counted in integers here. An attack may kill a player within a tick, and the respawn
system has revived every player by its end.
-/

namespace VeloChain

variable {F : Type}

/-- Numbers are compared and subtracted as integers, and whole ones have their sign. -/
structure IntegerHealth [F32 F] (value : F → Int) : Prop where
  le : ∀ a b : F, F32.le a b = true ↔ value a ≤ value b
  sub : ∀ a b : F, value (a - b) = value a - value b
  zero : value 0.0 = 0
  whole : ∀ n : Nat, 0 < n → 0 < value (OfScientific.ofScientific (10 * n) true 1)

/-- Health is between zero and a positive maximum, and just the dead have none. -/
structure HealthComponent.Sound (value : F → Int) (health : HealthComponent F) : Prop where
  nonneg : 0 ≤ value health.current
  le_maximum : value health.current ≤ value health.maximum
  positive : 0 < value health.maximum
  isDead : health.isDead = true ↔ value health.current = 0

/-- All health of an entity is sound. -/
def HealthSound (value : F → Int) (components : List (Component F)) : Prop :=
  ∀ health, .health health ∈ components → HealthComponent.Sound value health

/-- A player is not dead. -/
def PlayerAlive (components : List (Component F)) : Prop :=
  components.any Component.isPlayer = true → components.any Systems.isDead = false

/-- Something holds of the components of each entity. -/
def EcsWorld.Each (holds : List (Component F) → Prop) (world : EcsWorld F) : Prop :=
  ∀ entity components, world.getComponents entity = some components → holds components

variable {value : F → Int} {components : List (Component F)}

-----------------------------------------------------------------------------------------
-- Single entities
-----------------------------------------------------------------------------------------

/-- A change of components that keeps their health sound one by one. -/
theorem HealthSound.map {g : Component F → Component F}
    (keeps
      : ∀ component, HealthSound value [component] → HealthSound value [g component])
    (sound : HealthSound value components) : HealthSound value (components.map g) := by
  intro health member
  obtain ⟨component, isComponent, same⟩ := List.mem_map.mp member
  refine keeps component (fun own isOwn => ?_) health (by simp [same])
  rw [List.mem_singleton] at isOwn
  exact sound own (isOwn ▸ isComponent)

theorem healthSound_singleton {health : HealthComponent F}
    : HealthSound value [.health health] ↔ HealthComponent.Sound value health := by
  simp [HealthSound]

/-- A change that leaves health as it is. -/
theorem HealthSound.map_of_same {g : Component F → Component F}
    (same
      : ∀ component health, g component = .health health → component = .health health)
    (sound : HealthSound value components) : HealthSound value (components.map g) := by
  intro health member
  obtain ⟨component, isComponent, isHealth⟩ := List.mem_map.mp member
  exact sound health (same component health isHealth ▸ isComponent)

theorem HealthSound.movedTo (sound : HealthSound value components) (x y z : F)
    : HealthSound value (components.map (GameWorld.movedTo x y z)) := by
  refine sound.map_of_same fun component health isHealth => ?_
  cases component with
  | health _ => exact isHealth
  | _ => simp [GameWorld.movedTo] at isHealth

variable [F32 F]

/-- A revived entity has all its health. -/
theorem HealthSound.respawned (sound : HealthSound value components)
    : HealthSound value (components.map Systems.respawned) := by
  refine sound.map fun component own => ?_
  cases component with
  | health health =>
      have positive := (healthSound_singleton.mp own).positive
      refine healthSound_singleton.mpr ⟨Int.le_of_lt positive, Int.le_refl _, positive, ?_⟩
      simp only [Bool.false_eq_true, false_iff]
      omega
  | _ => simp [HealthSound, Systems.respawned]

/-- An attack takes health down to zero, and then the entity is dead. -/
theorem HealthSound.damaged (lawful : IntegerHealth value)
    (sound : HealthSound value components)
    : HealthSound value (components.map GameWorld.damaged) := by
  refine sound.map fun component own => ?_
  cases component with
  | health health =>
      obtain ⟨nonneg, le, positive, isDead⟩ := healthSound_singleton.mp own
      have damage : 0 < value (10.0 : F) := lawful.whole 10 (by decide)
      have left := lawful.sub health.current 10.0
      unfold GameWorld.damaged
      simp only
      split
      next fatal =>
        have none := lawful.zero
        exact healthSound_singleton.mpr ⟨by simp only; omega, by simp only; omega, positive, by
          simp [none]⟩
      next alive =>
        rw [lawful.le, lawful.zero] at alive
        refine healthSound_singleton.mpr ⟨by simp only; omega, by simp only; omega, positive, ?_⟩
        -- whoever is hit and not killed had health before
        simp only [isDead]
        omega
  | _ => simp [HealthSound, GameWorld.damaged]

theorem HealthSound.physicsEntity (sound : HealthSound value components)
    : HealthSound value (Systems.physicsEntity components) := by
  unfold Systems.physicsEntity
  split
  next =>
    refine sound.map_of_same fun component health isHealth => ?_
    cases component with
    | health _ => exact isHealth
    | _ => simp at isHealth
  next => exact sound

theorem HealthSound.npcAiEntity (sound : HealthSound value components) (tick : UInt64)
    : HealthSound value (Systems.npcAiEntity tick components) := by
  unfold Systems.npcAiEntity
  split
  next =>
    refine sound.map_of_same fun component health isHealth => ?_
    cases component with
    | health _ => exact isHealth
    | _ => simp at isHealth
  next => exact sound

/-- The combat system finds whoever has no health dead already. -/
theorem HealthSound.combatEntity (lawful : IntegerHealth value)
    (sound : HealthSound value components)
    : HealthSound value (Systems.combatEntity components) := by
  refine sound.map fun component own => ?_
  cases component with
  | health health =>
      obtain ⟨nonneg, -, -, isDead⟩ := healthSound_singleton.mp own
      have same : (F32.le health.current 0.0 && !health.isDead) = false := by
        cases used : F32.le health.current 0.0 with
        | false => rfl
        | true =>
            have := (lawful.le _ _).mp used
            rw [lawful.zero] at this
            rw [isDead.mpr (by omega)]
            rfl
      simpa only [same, Bool.false_eq_true, if_false] using own
  | _ => simp [HealthSound]

theorem HealthSound.respawnEntity (sound : HealthSound value components)
    : HealthSound value (Systems.respawnEntity components) := by
  unfold Systems.respawnEntity
  split
  next => exact sound.respawned
  next => exact sound

/-- All systems keep health sound. -/
theorem HealthSound.tickEntity (lawful : IntegerHealth value)
    (sound : HealthSound value components) (tick : UInt64)
    : HealthSound value (Systems.tickEntity tick components) := by
  have onMatch (matcher : Component F → Bool)
      {f : List (Component F) → List (Component F)} {components : List (Component F)}
      (sound : HealthSound value components) (changed : HealthSound value (f components))
      : HealthSound value (Systems.onMatch matcher f components) := by
    unfold Systems.onMatch
    split
    next => exact changed
    next => exact sound
  have moved := onMatch Component.isPhysics sound sound.physicsEntity
  have acted := onMatch Component.isNpc moved (moved.npcAiEntity tick)
  have fought := onMatch Component.isHealth acted (acted.combatEntity lawful)
  exact onMatch Component.isPlayer fought fought.respawnEntity

theorem any_isDead_respawned (components : List (Component F))
    : (components.map Systems.respawned).any Systems.isDead = false := by
  rw [List.any_eq_false]
  intro component member
  obtain ⟨before, -, rfl⟩ := List.mem_map.mp member
  cases before <;> simp [Systems.respawned, Systems.isDead]

/-- The respawn system comes last, so it leaves no player dead. -/
theorem playerAlive_tickEntity (tick : UInt64) (components : List (Component F))
    : PlayerAlive (Systems.tickEntity tick components) := by
  unfold Systems.tickEntity
  generalize Systems.onMatch Component.isHealth _ _ = fought
  intro isPlayer
  unfold Systems.onMatch at isPlayer ⊢
  split at isPlayer
  next player =>
    rw [if_pos player]
    unfold Systems.respawnEntity
    split
    next => exact any_isDead_respawned fought
    next alive => simpa using alive
  next noPlayer => exact absurd isPlayer noPlayer

-----------------------------------------------------------------------------------------
-- The entity world
-----------------------------------------------------------------------------------------

namespace EcsWorld

variable {holds holds' : List (Component F) → Prop} {world : EcsWorld F}

omit [F32 F] in
theorem Each.spawn (each : world.Each holds) (new : holds components)
    : (world.spawn components).Each holds := by
  intro entity found isFound
  rw [getComponents_spawn] at isFound
  split at isFound
  next => exact Option.some.inj isFound ▸ new
  next => exact each entity found isFound

omit [F32 F] in
theorem Each.updateComponents (each : world.Each holds)
    {f : List (Component F) → List (Component F)}
    (keeps : ∀ components, holds components → holds (f components)) (entity : EntityId)
    : (world.updateComponents entity f).Each holds := by
  intro other found isFound
  rw [getComponents_updateComponents] at isFound
  split at isFound
  next =>
    obtain ⟨before, isBefore, rfl⟩ := Option.map_eq_some_iff.mp isFound
    exact keeps before (each other before isBefore)
  next => exact each other found isFound

/-- The systems change each entity by itself. -/
theorem Each.runTick (each : world.Each holds) {tick : UInt64}
    (makes : ∀ components, holds components → holds' (Systems.tickEntity tick components))
    (order : Systems.SystemOrder F) : (Systems.runTick order tick world).Each holds' := by
  intro entity found isFound
  rw [Systems.getComponents_runTick] at isFound
  obtain ⟨before, isBefore, rfl⟩ := Option.map_eq_some_iff.mp isFound
  exact makes before (each entity before isBefore)

omit [F32 F] in
/-- NPCs are spawned one by one, each of a known archetype. -/
theorem Each.spawnNpcs
    {build : NpcArchetype F → String → F × F × F → List (F × F × F) → List (Component F)}
    {manager : SpawnManager F}
    (builds
      : ∀ archetype ∈ manager.archetypes, ∀ npcType position waypoints,
          holds (build archetype npcType position waypoints))
    (each : world.Each holds) (spawns : List (String × (F × F × F) × List (F × F × F)))
    : (GameWorld.spawnNpcs build manager spawns world).Each holds := by
  unfold GameWorld.spawnNpcs
  induction spawns generalizing world with
  | nil => exact each
  | cons wanted rest ih =>
      refine ih ?_
      unfold GameWorld.spawnNpc
      split
      next archetype found =>
        exact each.spawn (builds archetype (List.mem_of_find?_eq_some found) _ _ _)
      next => exact each

end EcsWorld

namespace GameWorld

open EcsWorld

variable {ecs : EcsWorld F}

/-- Every action keeps health sound. -/
theorem healthSound_processAction (lawful : IntegerHealth value)
    (sound : ecs.Each (HealthSound value)) (order : EntityOrder F) (playerAddress : String)
    (action : GameAction)
    : (processAction order playerAddress action ecs).2.Each (HealthSound value) := by
  cases action with
  | move x y z =>
      simp only [processAction]
      split
      next entity _ =>
        exact sound.updateComponents (fun _ before => before.movedTo _ _ _) entity
      next =>
        refine sound.spawn fun health member => ?_
        simp only [playerComponents, List.mem_cons, List.not_mem_nil, or_false, reduceCtorEq,
          false_or, Component.health.injEq] at member
        subst member
        have positive : 0 < value (100.0 : F) := lawful.whole 100 (by decide)
        exact ⟨Int.le_of_lt positive, Int.le_refl _, positive, by simp; omega⟩
  | respawn =>
      simp only [processAction]
      split
      next entity _ => exact sound.updateComponents (fun _ before => before.respawned) entity
      next => exact sound
  | attack target =>
      simp only [processAction]
      split
      next => exact sound.updateComponents (fun _ before => before.damaged lawful) target
      next => exact sound
  | chat _ | interact _ | placeBlock _ _ _ _ | breakBlock _ _ _ | craft _ => exact sound

theorem healthSound_processActions (lawful : IntegerHealth value)
    (sound : ecs.Each (HealthSound value)) (order : Nat → EntityOrder F)
    (actions : List (String × GameAction))
    : (processActions order actions ecs).2.Each (HealthSound value) :=
  Loop.run_invariant (fun (ecs : EcsWorld F) => ecs.Each (HealthSound value))
    (fun entry _ _ sound =>
      healthSound_processAction lawful sound (order entry.2) entry.1.1 entry.1.2) sound

/-- The default archetypes have health. -/
theorem healthSound_npcComponents (lawful : IntegerHealth value) {archetype : NpcArchetype F}
    (isDefault : archetype ∈ (SpawnManager.defaultArchetypes : List (NpcArchetype F)))
    (npcType : String) (position : F × F × F) (waypoints : List (F × F × F))
    : HealthSound value (npcComponents archetype npcType position waypoints) := by
  have positive : 0 < value archetype.maxHealth := by
    simp only [SpawnManager.defaultArchetypes, List.mem_cons, List.not_mem_nil, or_false]
      at isDefault
    rcases isDefault with rfl | rfl | rfl | rfl | rfl | rfl
    · exact lawful.whole 100 (by decide)
    · exact lawful.whole 150 (by decide)
    · exact lawful.whole 60 (by decide)
    · exact lawful.whole 15 (by decide)
    · exact lawful.whole 1000 (by decide)
    · exact lawful.whole 80 (by decide)
  intro health member
  simp only [npcComponents, List.mem_cons, List.not_mem_nil, or_false, reduceCtorEq, false_or,
    Component.health.injEq] at member
  subst member
  exact ⟨Int.le_of_lt positive, Int.le_refl _, positive, by simp; omega⟩

-----------------------------------------------------------------------------------------
-- Ticks
-----------------------------------------------------------------------------------------

/-- The game worlds that arise from new ones by successful ticks. -/
inductive Ticked (crypto : Crypto) (codec : EcsCodec F) : GameWorld F → Prop
  | new (seed : UInt64) : Ticked crypto codec (new crypto.keccak256 seed)
  | tick {world : GameWorld F} (before : Ticked crypto codec world) (order : TickOrder F)
      (actions : List (String × GameAction))
      (ok : (tick crypto codec order actions world).1.isOk = true)
      : Ticked crypto codec (tick crypto codec order actions world).2

/-- The health of a world is sound, and it spawns what the default archetypes say. -/
structure Sane (value : F → Int) (world : GameWorld F) : Prop where
  health : world.ecs.Each (HealthSound value)
  archetypes : world.spawnManager.archetypes = SpawnManager.defaultArchetypes

variable {crypto : Crypto} {codec : EcsCodec F}

theorem sane_new (lawful : IntegerHealth value) (keccak256 : Bytes → B256) (seed : UInt64)
    : Sane value (new keccak256 seed) := by
  have empty : (EcsWorld.new : EcsWorld F).Each (HealthSound value) := by
    intro entity found isFound
    simp [EcsWorld.getComponents, EcsWorld.new] at isFound
  refine ⟨empty.spawnNpcs (fun archetype isDefault npcType position waypoints => ?_) _, rfl⟩
  have all := healthSound_npcComponents lawful isDefault npcType position waypoints
  unfold initialNpcComponents
  simp only
  split
  next => exact fun health member => all health (List.mem_filter.mp member).1
  next => exact all

/-- A successful tick keeps the health sound and leaves no player dead: the NPCs that it spawns
after the systems are no players.
-/
theorem sane_tick (lawful : IntegerHealth value) {world : GameWorld F} (sane : Sane value world)
    (order : TickOrder F) (actions : List (String × GameAction))
    (ok : (tick crypto codec order actions world).1.isOk = true)
    : Sane value (tick crypto codec order actions world).2
      ∧ (tick crypto codec order actions world).2.ecs.Each PlayerAlive := by
  have acted := healthSound_processActions lawful sane.health order.action actions
  unfold tick at ok ⊢
  simp only at ok ⊢
  rcases done : processActions order.action actions world.ecs with ⟨e | _, ecs⟩
  · simp [done, Except.isOk, Except.toBool] at ok
  · rw [done] at acted
    have ran (holds : List (Component F) → Prop)
        (makes
          : ∀ components, HealthSound value components →
              holds (Systems.tickEntity (world.currentTick + 1) components))
        (builds
          : ∀ archetype ∈ (SpawnManager.defaultArchetypes : List (NpcArchetype F)),
              ∀ npcType position waypoints,
                holds (npcComponents archetype npcType position waypoints))
        : (spawnNpcs npcComponents world.spawnManager.tickSpawns.2
            world.spawnManager.tickSpawns.1
            (Systems.runTick order.systems (world.currentTick + 1) ecs)).Each holds :=
      (acted.runTick makes order.systems).spawnNpcs
        (fun archetype member => builds archetype (sane.archetypes ▸ member)) _
    refine ⟨⟨?_, sane.archetypes⟩, ?_⟩
    · exact ran _ (fun _ sound => sound.tickEntity lawful _)
        (fun archetype isDefault => healthSound_npcComponents lawful isDefault)
    · exact ran _ (fun components _ => playerAlive_tickEntity _ components)
        (fun _ _ _ _ _ isPlayer => by simp [npcComponents, Component.isPlayer] at isPlayer)

theorem Ticked.sane (lawful : IntegerHealth value) {world : GameWorld F}
    (ticked : Ticked crypto codec world) : Sane value world := by
  induction ticked with
  | new seed => exact sane_new lawful _ seed
  | tick _ order actions ok ih => exact (sane_tick lawful ih order actions ok).1

/-- After every successful tick of a world that arose from successful ticks, every health is
between zero and its maximum, an entity is dead exactly when it has none left, and no player is
dead.
-/
theorem healthInvariant_tick (lawful : IntegerHealth value) {world : GameWorld F}
    (ticked : Ticked crypto codec world) (order : TickOrder F)
    (actions : List (String × GameAction))
    (ok : (tick crypto codec order actions world).1.isOk = true)
    : ∀ entity components,
        (tick crypto codec order actions world).2.ecs.getComponents entity = some components →
        (∀ health, .health health ∈ components →
          0 ≤ value health.current
          ∧ value health.current ≤ value health.maximum
          ∧ (health.isDead = true ↔ value health.current = 0))
        ∧ (components.any Component.isPlayer = true →
            ∀ health, .health health ∈ components → health.isDead = false) := by
  intro entity components isFound
  obtain ⟨sane, alive⟩ := sane_tick lawful (ticked.sane lawful) order actions ok
  refine ⟨fun health member => ?_, fun isPlayer health member => ?_⟩
  · obtain ⟨nonneg, le, -, isDead⟩ := sane.health entity components isFound health member
    exact ⟨nonneg, le, isDead⟩
  · have none := List.any_eq_false.mp (alive entity components isFound isPlayer) _ member
    simpa [Systems.isDead] using none

/-- Thousandths are integers. -/
theorem integerHealth_milli : IntegerHealth Milli.thousandths where
  le := fun _ _ => decide_eq_true_iff
  sub := fun _ _ => rfl
  zero := rfl
  whole := by
    intro n positive
    change (0 : Int) < ((10 * n : Nat) : Int) * 1000 / 10 ^ 1
    omega

/-- A player joins, and another one attacks it ten times. -/
def duel : List (String × GameAction) :=
  ("0xa", .move 0 0 0) :: List.replicate 10 ("0xb", .attack 11)

theorem healthInvariant_tick_duel
    : (tick .disclosing milliCodec (.uniform ascendingOrder) duel
          (new Crypto.disclosing.keccak256 5 : GameWorld Milli)).1.isOk = true
      ∧ ∀ entity components,
        (tick .disclosing milliCodec (.uniform ascendingOrder) duel
            (new Crypto.disclosing.keccak256 5 : GameWorld Milli)).2.ecs.getComponents entity
          = some components →
        (∀ health, .health health ∈ components →
          0 ≤ health.current.thousandths
          ∧ health.current.thousandths ≤ health.maximum.thousandths
          ∧ (health.isDead = true ↔ health.current.thousandths = 0))
        ∧ (components.any Component.isPlayer = true →
            ∀ health, .health health ∈ components → health.isDead = false) := by
  have ok
      : (tick .disclosing milliCodec (.uniform ascendingOrder) duel
          (new Crypto.disclosing.keccak256 5 : GameWorld Milli)).1.isOk = true := by
    decide +kernel
  exact ⟨ok,
    healthInvariant_tick integerHealth_milli (.new 5) (.uniform ascendingOrder) duel ok⟩

end GameWorld

end VeloChain
