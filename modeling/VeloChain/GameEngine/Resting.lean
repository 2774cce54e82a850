import VeloChain.GameEngine.Restart

/-! Ticks without actions that find nothing to change.
The systems change every entity on its own, and a due spawn point takes a new id. So whether a
tick without actions ends with given entities can be read off the world before, entity by
entity.
-/

namespace VeloChain

variable {F : Type} [F32 F]

/-- Every serialized world is read back. -/
def EcsCodec.RoundTrips (codec : EcsCodec F) : Prop :=
  ∀ (world : EcsWorld F) (order : EntityOrder F),
    codec.decode (world.serialize codec order) = .ok world

namespace Systems

/-- Change the components of an entity that a system looks for. -/
def onMatch (matcher : Component F → Bool)
    (f : List (Component F) → List (Component F)) (components : List (Component F))
    : List (Component F) :=
  if components.any matcher then f components else components

/-- What the systems of one tick make of the components of an entity. -/
def tickEntity (tick : UInt64) (components : List (Component F)) : List (Component F) :=
  onMatch Component.isPlayer respawnEntity
    (onMatch Component.isHealth combatEntity
      (onMatch Component.isNpc (npcAiEntity tick)
        (onMatch Component.isPhysics physicsEntity components)))

theorem getComponents_runTick (order : SystemOrder F) (tick : UInt64) (world : EcsWorld F)
    (entity : EntityId)
    : (runTick order tick world).getComponents entity
      = (world.getComponents entity).map (tickEntity tick) := by
  unfold runTick respawnSystem combatSystem npcAiSystem physicsSystem
  simp only [getComponents_runSystem, Option.map_map]
  rfl

end Systems

namespace SpawnManager

/-- No spawn point is due. -/
def Quiet (manager : SpawnManager F) : Prop :=
  ∀ point ∈ manager.spawnPoints, (tickSpawnPoint point).1 = false

variable {manager : SpawnManager F}

omit [F32 F] in
theorem quiet_iff : manager.Quiet ↔ manager.tickSpawns.1 = [] := by
  simp only [Quiet, SpawnManager.tickSpawns, List.map_eq_nil_iff, List.filter_eq_nil_iff,
    Bool.not_eq_true]

theorem known_generateSpawnPoints (keccak256 : Bytes → B256) (seed : UInt64)
    : (SpawnManager.new.generateSpawnPoints keccak256 seed : SpawnManager F).Known :=
  (unspawned_generateSpawnPoints keccak256 seed).known

end SpawnManager

namespace GameWorld

/-- A tick without actions turns the world into the stored entities: no spawn point is due, and
the systems make of every entity what is stored for it.
-/
structure Resting (stored : EcsWorld F) (world : GameWorld F) : Prop where
  nextEntityId : stored.nextEntityId = world.ecs.nextEntityId
  still
    : ∀ entity,
        stored.getComponents entity
        = (world.ecs.getComponents entity).map (Systems.tickEntity (world.currentTick + 1))
  quiet : world.spawnManager.Quiet

variable {crypto : Crypto} {codec : EcsCodec F}

/-- The entities after a tick without actions. -/
theorem ecs_idleTick (order : TickOrder F) (world : GameWorld F)
    : (tick crypto codec order [] world).2.ecs
      = spawnNpcs npcComponents world.spawnManager.tickSpawns.2 world.spawnManager.tickSpawns.1
          (Systems.runTick order.systems (world.currentTick + 1) world.ecs) := rfl

/-- A tick without actions ends with the stored entities exactly when the world rests in them,
as long as no more ids are stored than the world has given out.
-/
theorem ecs_idleTick_eq_iff {world : GameWorld F} (known : world.spawnManager.Known)
    {stored : EcsWorld F} (behind : stored.nextEntityId ≤ world.ecs.nextEntityId)
    (order : TickOrder F)
    : (tick crypto codec order [] world).2.ecs = stored ↔ Resting stored world := by
  have systems := (Systems.samePlayers_runTick order.systems (world.currentTick + 1)
    world.ecs).nextEntityId
  rw [ecs_idleTick]
  constructor
  · intro same
    have grown := @nextEntityId_spawnNpcs F npcComponents _ _ known.wanted
      (Systems.runTick order.systems (world.currentTick + 1) world.ecs)
    rw [same, systems] at grown
    have none : world.spawnManager.tickSpawns.1 = [] := by
      rw [grown] at behind
      exact List.eq_nil_of_length_eq_zero
        (Nat.eq_zero_of_le_zero (Nat.le_of_add_le_add_left behind))
    rw [none] at same grown
    refine ⟨grown, ?_, SpawnManager.quiet_iff.mpr none⟩
    intro entity
    rw [← same]
    exact Systems.getComponents_runTick _ _ _ entity
  · intro resting
    rw [SpawnManager.quiet_iff.mp resting.quiet]
    apply EcsWorld.ext
    · exact systems.trans resting.nextEntityId.symm
    · apply Finmap.ext_lookup
      intro entity
      exact (Systems.getComponents_runTick _ _ _ entity).trans (resting.still entity).symm

omit [F32 F] in
theorem nextEntityId_le_spawnNpcs
    (build : NpcArchetype F → String → F × F × F → List (F × F × F) → List (Component F))
    (manager : SpawnManager F) (spawns : List (String × (F × F × F) × List (F × F × F)))
    (ecs : EcsWorld F)
    : ecs.nextEntityId ≤ (spawnNpcs build manager spawns ecs).nextEntityId := by
  induction spawns generalizing ecs with
  | nil => exact Nat.le_refl _
  | cons wanted rest ih =>
      have first : ecs.nextEntityId ≤ (spawnNpc build manager ecs wanted).nextEntityId := by
        unfold spawnNpc
        split
        next => exact Nat.le_succ _
        next => exact Nat.le_refl _
      exact Nat.le_trans first (ih _)

theorem nextEntityId_le_processAction (order : EntityOrder F) (playerAddress : String)
    (action : GameAction) (ecs : EcsWorld F)
    : ecs.nextEntityId ≤ (processAction order playerAddress action ecs).2.nextEntityId := by
  cases action with
  | move x y z =>
      unfold processAction
      cases findPlayerEntity order playerAddress ecs with
      | none => exact Nat.le_succ _
      | some entity => exact Nat.le_refl _
  | respawn =>
      unfold processAction
      cases findPlayerEntity order playerAddress ecs <;> exact Nat.le_refl _
  | attack target =>
      unfold processAction
      cases found : ecs.getComponents target <;> simp only [found] <;> exact Nat.le_refl _
  | _ => exact Nat.le_refl _

/-- A tick takes back no ids, whether it succeeds or fails. -/
theorem nextEntityId_le_tick (order : TickOrder F) (actions : List (String × GameAction))
    (world : GameWorld F)
    : world.ecs.nextEntityId ≤ (tick crypto codec order actions world).2.ecs.nextEntityId := by
  have acted
      : world.ecs.nextEntityId ≤ (processActions order.action actions world.ecs).2.nextEntityId :=
    Loop.run_invariant (fun (ecs : EcsWorld F) => world.ecs.nextEntityId ≤ ecs.nextEntityId)
      (fun _ _ _ held => Nat.le_trans held (nextEntityId_le_processAction _ _ _ _))
      (Nat.le_refl _)
  unfold tick
  rcases done : processActions order.action actions world.ecs with ⟨_ | _, ecs⟩
  · rw [done] at acted
    simpa only [done] using acted
  · rw [done] at acted
    have systems := (Systems.samePlayers_runTick order.systems (world.currentTick + 1)
      ecs).nextEntityId
    simp only [done]
    exact Nat.le_trans (Nat.le_trans acted (Nat.le_of_eq systems.symm))
      (nextEntityId_le_spawnNpcs _ _ _ _)

theorem known_tick (order : TickOrder F) (actions : List (String × GameAction))
    {world : GameWorld F} (known : world.spawnManager.Known)
    : (tick crypto codec order actions world).2.spawnManager.Known := by
  unfold tick
  rcases done : processActions order.action actions world.ecs with ⟨_ | _, ecs⟩
  · simpa only [done] using known
  · simpa only [done, finishTick] using known.tickSpawns

/-- What no tick takes back: the seed, the ids given out and the known spawn points. -/
structure Grown (before after : GameWorld F) : Prop where
  seed : after.seed = before.seed
  ids : before.ecs.nextEntityId ≤ after.ecs.nextEntityId
  known : before.spawnManager.Known → after.spawnManager.Known

omit [F32 F] in
theorem Grown.refl (world : GameWorld F) : Grown world world :=
  ⟨rfl, Nat.le_refl _, fun known => known⟩

theorem grown_tick (order : TickOrder F) (actions : List (String × GameAction))
    (world : GameWorld F)
    : Grown world (tick crypto codec order actions world).2 :=
  ⟨seed_tick order actions world, nextEntityId_le_tick order actions world,
    known_tick order actions⟩

end GameWorld

end VeloChain
