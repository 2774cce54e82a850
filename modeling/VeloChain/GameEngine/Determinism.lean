import VeloChain.GameEngine.Players

/-! Ticks do not depend on the order in which hash maps are walked.
Systems change each entity on its own, and the player lookup has at most one answer; so two
nodes in the same state that receive the same actions stay in the same state. Only the
serialization, and with it the returned root, follows the order of its walk.
-/

namespace VeloChain

variable {F : Type} [F32 F]

-----------------------------------------------------------------------------------------
-- Systems keep the players
-----------------------------------------------------------------------------------------

namespace Systems

open EcsWorld

theorem isPlayerOf_respawned (address : String) (component : Component F)
    : GameWorld.isPlayerOf address (respawned component)
      = GameWorld.isPlayerOf address component := by
  cases component <;> rfl

theorem keepsPlayers_physicsEntity : KeepsPlayers (physicsEntity (F := F)) := by
  intro address components
  unfold physicsEntity
  split
  next pos phys _ _ =>
    refine KeepsPlayers.map ?_ address components
    intro address component
    cases component <;> rfl
  next => rfl

theorem keepsPlayers_npcAiEntity (tick : UInt64) : KeepsPlayers (npcAiEntity (F := F) tick) := by
  intro address components
  unfold npcAiEntity
  split
  next npc pos _ _ =>
    refine KeepsPlayers.map ?_ address components
    intro address component
    cases component <;> rfl
  next => rfl

theorem keepsPlayers_combatEntity : KeepsPlayers (combatEntity (F := F)) := by
  apply KeepsPlayers.map
  intro address component
  cases component with
  | health health =>
      simp only
      split <;> rfl
  | _ => rfl

theorem keepsPlayers_respawnEntity : KeepsPlayers (respawnEntity (F := F)) := by
  intro address components
  unfold respawnEntity
  split
  next => exact KeepsPlayers.map isPlayerOf_respawned address components
  next => rfl

omit [F32 F] in
theorem samePlayers_runSystem {f : List (Component F) → List (Component F)}
    (keeps : KeepsPlayers f) (order : EntityOrder F) (matcher : Component F → Bool)
    (world : EcsWorld F)
    : SamePlayers world (runSystem order matcher f world) := by
  refine samePlayers_of_map rfl
    (fun _ components => if components.any matcher then f components else components) ?_
    (getComponents_runSystem order matcher f world)
  intro entity address components
  simp only
  split
  next => exact keeps address components
  next => rfl

theorem samePlayers_runTick (order : SystemOrder F) (tick : UInt64) (world : EcsWorld F)
    : SamePlayers world (runTick order tick world) :=
  (((samePlayers_runSystem keepsPlayers_physicsEntity _ _ world).trans
    (samePlayers_runSystem (keepsPlayers_npcAiEntity tick) _ _ _)).trans
    (samePlayers_runSystem keepsPlayers_combatEntity _ _ _)).trans
    (samePlayers_runSystem keepsPlayers_respawnEntity _ _ _)

end Systems

-----------------------------------------------------------------------------------------
-- Ticks keep well-formed worlds
-----------------------------------------------------------------------------------------

namespace GameWorld

theorem any_npcComponents (archetype : NpcArchetype F) (npcType : String)
    (position : F × F × F) (waypoints : List (F × F × F)) (address : String)
    : (npcComponents archetype npcType position waypoints).any (isPlayerOf address) = false :=
  rfl

omit [F32 F] in
/-- Spawning NPCs keeps the world well-formed, since they are linked to no address. -/
theorem wellformed_spawnNpcs
    {build
      : NpcArchetype F → String → F × F × F → List (F × F × F) → List (Component F)}
    (unlinked
      : ∀ archetype npcType position waypoints address,
          (build archetype npcType position waypoints).any (isPlayerOf address) = false)
    (manager : SpawnManager F) (spawns : List (String × (F × F × F) × List (F × F × F)))
    {ecs : EcsWorld F} (wellformed : ecs.Wellformed)
    : (spawnNpcs build manager spawns ecs).Wellformed := by
  unfold spawnNpcs
  induction spawns generalizing ecs with
  | nil => exact wellformed
  | cons wanted rest ih =>
      apply ih
      cases found : manager.getArchetype wanted.1 with
      | none => simpa only [spawnNpc, found] using wellformed
      | some archetype =>
          simp only [spawnNpc, found]
          apply wellformed.spawn
          intro address linked
          rw [unlinked] at linked
          exact absurd linked Bool.false_ne_true

theorem wellformed_processActions (order : Nat → EntityOrder F)
    (actions : List (String × GameAction)) {ecs : EcsWorld F} (wellformed : ecs.Wellformed)
    : (processActions order actions ecs).2.Wellformed :=
  Loop.run_invariant EcsWorld.Wellformed
    (fun entry _ _ held => wellformed_processAction held (order entry.2) entry.1.1 entry.1.2)
    wellformed

/-- Actions have the same results in every order of their lookups. -/
theorem processActions_congr (order order' : Nat → EntityOrder F)
    (actions : List (String × GameAction)) {ecs : EcsWorld F} (wellformed : ecs.Wellformed)
    : processActions order actions ecs = processActions order' actions ecs := by
  have together
      : (processActions order actions ecs).1 = (processActions order' actions ecs).1
        ∧ (processActions order actions ecs).2 = (processActions order' actions ecs).2
        ∧ (processActions order actions ecs).2.Wellformed := by
    refine Loop.run_lockstep
      (fun (left right : EcsWorld F) => left = right ∧ left.Wellformed) ?_ ⟨rfl, wellformed⟩
    intro entry _ left right held
    obtain ⟨rfl, held⟩ := held
    rw [processAction_congr held (order entry.2) (order' entry.2)]
    exact ⟨rfl, rfl, wellformed_processAction held _ _ _⟩
  exact Prod.ext together.1 together.2.1

variable {crypto : Crypto} {codec : EcsCodec F}

theorem wellformed_tick (order : TickOrder F) (actions : List (String × GameAction))
    {world : GameWorld F} (wellformed : world.ecs.Wellformed)
    : (tick crypto codec order actions world).2.ecs.Wellformed := by
  have acted := wellformed_processActions order.action actions wellformed
  unfold tick
  rcases done : processActions order.action actions world.ecs with ⟨_ | _, ecs⟩
  · simpa only [done] using acted
  · rw [done] at acted
    simp only [done, finishTick]
    exact wellformed_spawnNpcs any_npcComponents _ _
      ((Systems.samePlayers_runTick _ _ _).wellformed acted)

/-- The game worlds that arise from new ones by ticks, also failing ones. -/
inductive Reachable (crypto : Crypto) (codec : EcsCodec F) : GameWorld F → Prop
  | new (seed : UInt64) : Reachable crypto codec (new crypto.keccak256 seed)
  | tick {world : GameWorld F} (order : TickOrder F) (actions : List (String × GameAction))
      (before : Reachable crypto codec world)
      : Reachable crypto codec (tick crypto codec order actions world).2

theorem any_initialNpcComponents (archetype : NpcArchetype F) (npcType : String)
    (position : F × F × F) (waypoints : List (F × F × F)) (address : String)
    : (initialNpcComponents archetype npcType position waypoints).any (isPlayerOf address)
      = false := by
  unfold initialNpcComponents
  split
  next => rfl
  next => rfl

theorem Reachable.wellformed {world : GameWorld F} (reachable : Reachable crypto codec world)
    : world.ecs.Wellformed := by
  induction reachable with
  | new seed => exact wellformed_spawnNpcs any_initialNpcComponents _ _ EcsWorld.wellformed_new
  | tick order actions _ ih => exact wellformed_tick order actions ih

-----------------------------------------------------------------------------------------
-- Two worlds side by side
-----------------------------------------------------------------------------------------

/-- Two worlds have the same entities, next id, tick and spawn state. -/
structure SameEntities (left right : GameWorld F) : Prop where
  ecs : left.ecs = right.ecs
  currentTick : left.currentTick = right.currentTick
  spawnManager : left.spawnManager = right.spawnManager

/-- Two worlds have the same abstract state. -/
structure SameState (left right : GameWorld F) : Prop extends SameEntities left right where
  eventManager : left.eventManager = right.eventManager

/-- A tick of two worlds with the same entities and actions fails on both with the same error
or on neither, and leaves them with the same entities, whatever the orders of the walks.
-/
theorem SameEntities.tick {left right : GameWorld F} (same : SameEntities left right)
    (wellformed : left.ecs.Wellformed) (order order' : TickOrder F)
    (actions : List (String × GameAction))
    : (tick crypto codec order actions left).1.map (fun _ => ())
        = (GameWorld.tick crypto codec order' actions right).1.map (fun _ => ())
      ∧ SameEntities (GameWorld.tick crypto codec order actions left).2
          (GameWorld.tick crypto codec order' actions right).2 := by
  have acted := processActions_congr order.action order'.action actions wellformed
  unfold GameWorld.tick
  simp only [← same.ecs, ← same.currentTick, ← acted]
  rcases processActions order.action actions left.ecs with ⟨_ | _, ecs⟩
  · exact ⟨rfl, rfl, rfl, same.spawnManager⟩
  · refine ⟨rfl, ?_, rfl, ?_⟩
    · simp only [finishTick, ← same.spawnManager,
        Systems.runTick_congr order.systems order'.systems]
    · simp only [finishTick, ← same.spawnManager]

/-- The events after a tick depend on its number, the seed and whether its actions succeed. -/
theorem eventManager_tick (order : TickOrder F) (actions : List (String × GameAction))
    (world : GameWorld F)
    : (tick crypto codec order actions world).2.eventManager
      = match (tick crypto codec order actions world).1.map (fun _ => ()) with
        | .error _ => world.eventManager
        | .ok () =>
            world.eventManager.tickPeriodicEvents crypto.keccak256 (world.currentTick + 1)
              world.seed := by
  unfold tick
  rcases acted : processActions order.action actions world.ecs with ⟨_ | _, ecs⟩ <;>
    simp only [acted, Except.map, finishTick]

theorem seed_tick (order : TickOrder F) (actions : List (String × GameAction))
    (world : GameWorld F)
    : (tick crypto codec order actions world).2.seed = world.seed := by
  unfold tick
  rcases acted : processActions order.action actions world.ecs with ⟨_ | _, ecs⟩ <;>
    simp only [acted, finishTick]

/-- A tick counts itself, whether it succeeds or fails. -/
theorem currentTick_tick (order : TickOrder F) (actions : List (String × GameAction))
    (world : GameWorld F)
    : (tick crypto codec order actions world).2.currentTick = world.currentTick + 1 := by
  unfold tick
  rcases acted : processActions order.action actions world.ecs with ⟨_ | _, ecs⟩ <;>
    simp only [acted, finishTick]

/-- With the same seed also the events stay the same. -/
theorem SameState.tick {left right : GameWorld F} (same : SameState left right)
    (seed : left.seed = right.seed) (wellformed : left.ecs.Wellformed)
    (order order' : TickOrder F) (actions : List (String × GameAction))
    : SameState (GameWorld.tick crypto codec order actions left).2
        (GameWorld.tick crypto codec order' actions right).2 := by
  obtain ⟨results, entities⟩ :=
    @SameEntities.tick F _ crypto codec left right same.toSameEntities wellformed order order'
      actions
  refine ⟨entities, ?_⟩
  rw [eventManager_tick, eventManager_tick, results, same.eventManager, same.currentTick, seed]

/-- The results of successive ticks and the worlds after them, also past failing ticks. -/
def trace (crypto : Crypto) (codec : EcsCodec F)
    : List (List (String × GameAction) × TickOrder F) → GameWorld F
      → List (Except GameEngineError Unit × GameWorld F)
  | [], _ => []
  | (actions, order) :: rest, world =>
      let next := tick crypto codec order actions world
      (next.1.map (fun _ => ()), next.2) :: trace crypto codec rest next.2

/-- Two worlds that agree as far as their seeds do run in step, by induction on the ticks. -/
theorem trace_agree {left right : GameWorld F} (wellformed : left.ecs.Wellformed)
    (entities : SameEntities left right)
    (events : left.seed = right.seed → SameState left right)
    (ticks : List (List (String × GameAction) × TickOrder F × TickOrder F))
    : List.Forall₂
        (fun onLeft onRight =>
          onLeft.1 = onRight.1
          ∧ SameEntities onLeft.2 onRight.2
          ∧ (left.seed = right.seed → SameState onLeft.2 onRight.2))
        (trace crypto codec (ticks.map (fun t => (t.1, t.2.1))) left)
        (trace crypto codec (ticks.map (fun t => (t.1, t.2.2))) right) := by
  induction ticks generalizing left right with
  | nil => exact .nil
  | cons t rest ih =>
      obtain ⟨actions, order, order'⟩ := t
      obtain ⟨results, next⟩ :=
        @SameEntities.tick F _ crypto codec left right entities wellformed order order' actions
      have nextEvents (seed : left.seed = right.seed)
          : SameState (tick crypto codec order actions left).2
              (tick crypto codec order' actions right).2 :=
        (events seed).tick seed wellformed order order' actions
      apply List.Forall₂.cons ⟨results, next, nextEvents⟩
      have later := ih (wellformed_tick order actions wellformed) next
        (fun seed => nextEvents (by rwa [seed_tick, seed_tick] at seed))
      rwa [seed_tick, seed_tick] at later

-----------------------------------------------------------------------------------------
-- The seed of a world
-----------------------------------------------------------------------------------------

/-- Where the NPCs of a world spawn. -/
def spawnPositions (world : GameWorld F) : List (F × F × F) :=
  world.spawnManager.spawnPoints.map SpawnPoint.position

/-- The positions of the initial spawn points, which are offset by hashes of the seed, tell the
two seeds apart.
-/
def OffsetsTell (F : Type) [F32 F] (keccak256 : Bytes → B256) (seed seed' : UInt64) : Prop :=
  (new keccak256 seed : GameWorld F).spawnPositions
      = (new keccak256 seed' : GameWorld F).spawnPositions
    → seed = seed'

omit [F32 F] in
theorem positions_tickSpawns (manager : SpawnManager F)
    : manager.tickSpawns.2.spawnPoints.map SpawnPoint.position
      = manager.spawnPoints.map SpawnPoint.position := by
  have same : ∀ point : SpawnPoint F,
      (SpawnManager.tickSpawnPoint point).2.position = point.position := by
    intro point
    unfold SpawnManager.tickSpawnPoint
    split
    · split <;> rfl
    · rfl
  rw [SpawnManager.tickSpawns, List.map_map]
  exact List.map_congr_left (fun point _ => same point)

theorem spawnPositions_tick (order : TickOrder F) (actions : List (String × GameAction))
    (world : GameWorld F)
    : (tick crypto codec order actions world).2.spawnPositions = world.spawnPositions := by
  unfold tick
  rcases acted : processActions order.action actions world.ecs with ⟨_ | _, ecs⟩
  · simp only [acted, spawnPositions]
  · simp only [acted, finishTick, spawnPositions]
    exact positions_tickSpawns world.spawnManager

/-- In every reachable world, NPCs spawn where they do in a new world of its seed. -/
theorem Reachable.spawnPositions {world : GameWorld F} (reachable : Reachable crypto codec world)
    : world.spawnPositions = (GameWorld.new crypto.keccak256 world.seed).spawnPositions := by
  induction reachable with
  | new seed => rfl
  | tick order actions _ ih => rw [spawnPositions_tick, seed_tick, ih]

/-- Reachable worlds in the same state have the same seed. -/
theorem SameEntities.seed {left right : GameWorld F} (same : SameEntities left right)
    (reachable : Reachable crypto codec left) (reachable' : Reachable crypto codec right)
    (tell : OffsetsTell F crypto.keccak256 left.seed right.seed)
    : left.seed = right.seed := by
  apply tell
  rw [← reachable.spawnPositions, ← reachable'.spawnPositions, spawnPositions, spawnPositions,
    same.spawnManager]

/-- Two reachable worlds in the same state run in step: given the same actions, every tick fails
on both or on neither and leaves the same state, whatever the orders in which each walks over its
entities. The weather is drawn from the seed, which the spawn points tell.
-/
theorem trace_deterministic {left right : GameWorld F}
    (reachable : Reachable crypto codec left) (reachable' : Reachable crypto codec right)
    (tell : OffsetsTell F crypto.keccak256 left.seed right.seed) (same : SameState left right)
    (ticks : List (List (String × GameAction) × TickOrder F × TickOrder F))
    : List.Forall₂
        (fun onLeft onRight => onLeft.1 = onRight.1 ∧ SameState onLeft.2 onRight.2)
        (trace crypto codec (ticks.map (fun t => (t.1, t.2.1))) left)
        (trace crypto codec (ticks.map (fun t => (t.1, t.2.2))) right) := by
  have seed := same.seed reachable reachable' tell
  have agree := @trace_agree F _ crypto codec left right reachable.wellformed same.toSameEntities
    (fun _ => same) ticks
  exact agree.imp (fun onLeft onRight held => ⟨held.1, held.2.2 seed⟩)

/-- A tick in which a player joins and attacks, with walks from either end. -/
def joinAndAttack : List (List (String × GameAction) × TickOrder Milli × TickOrder Milli) :=
  let order : EntityOrder Milli := FinMap.ascending id Function.injective_id
  [([("0x07", .move 1000 2000 3000), ("0x07", .attack 1)],
    .uniform order, .uniform order.reversed)]

theorem trace_deterministic_joinAndAttack
    : List.Forall₂
        (fun onLeft onRight => onLeft.1 = onRight.1 ∧ SameState onLeft.2 onRight.2)
        (trace .disclosing .idsOnly (joinAndAttack.map (fun t => (t.1, t.2.1)))
          (new hashFromSlice 5))
        (trace .disclosing .idsOnly (joinAndAttack.map (fun t => (t.1, t.2.2)))
          (new hashFromSlice 5)) :=
  @trace_deterministic Milli _ .disclosing .idsOnly (new hashFromSlice 5) (new hashFromSlice 5)
    (.new 5) (.new 5) (fun _ => rfl) ⟨⟨rfl, rfl, rfl⟩, rfl⟩ joinAndAttack

-- With the leading bytes of a message for its hash, the offsets tell two seeds apart.
example
    : OffsetsTell Milli (fun bytes => hashFromSlice ((bytes ++ List.replicate 16 0).take 32)) 0
        1 := by
  intro same
  exact absurd same (by decide +kernel)

end GameWorld

end VeloChain
