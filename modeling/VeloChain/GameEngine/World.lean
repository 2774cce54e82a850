import VeloChain.GameEngine.Events
import VeloChain.GameEngine.NpcAi
import VeloChain.GameEngine.Systems
import VeloChain.Lib.Loop
import VeloChain.Primitives.Crypto

/-! The game world: player actions and the game tick.
Terrain and item registry are not part of a tick and are left out. A failing action ends the
tick at once; what was changed until then stays.
-/

namespace VeloChain

inductive GameEngineError
  | entityNotFound (entity : EntityId)
  | serialization (message : String)
  deriving DecidableEq

variable (F : Type)

/-- The game world state. -/
@[ext]
structure GameWorld where
  ecs : EcsWorld F
  currentTick : UInt64
  seed : UInt64
  spawnManager : SpawnManager F
  eventManager : EventManager F

/-- The orders in which one tick walks over the entities: for the player lookup of each
action, for each system, and for the serialization.
-/
structure TickOrder where
  action : Nat → EntityOrder F
  systems : Systems.SystemOrder F
  serialize : EntityOrder F

variable {F}

/-- One order for every walk of a tick. -/
def TickOrder.uniform (order : EntityOrder F) : TickOrder F :=
  { action := fun _ => order
    systems := { physics := order, npcAi := order, combat := order, respawn := order }
    serialize := order }

variable [F32 F]

namespace GameWorld

/-- The components of a spawned NPC. -/
def npcComponents (archetype : NpcArchetype F) (npcType : String) (position : F × F × F)
    (waypoints : List (F × F × F)) : List (Component F) :=
  let (x, y, z) := position
  [ .position { x, y, z }
  , .health { current := archetype.maxHealth, maximum := archetype.maxHealth, isDead := false }
  , .npc
      { npcType
        behavior :=
          match archetype.behaviorPattern with
          | .passive => .idle
          | .patrolPassive => .patrol
          | .patrolAggressive => .patrol
          | .guardian => .aggressive
          | .timid => .idle
          | .predator => .aggressive
        homePosition := { x, y, z } }
  , .physics
      { velocityX := 0.0, velocityY := 0.0, velocityZ := 0.0, mass := 80.0, isGrounded := true }
  , .combat
      { attack := archetype.attackDamage
        defense := archetype.attackDamage * (0.3 : F)
        attackRange := archetype.attackRange
        attackCooldown := archetype.attackCooldown
        cooldownRemaining := 0
        critChance := 0.0
        critMultiplier := 1.5 }
  , .aiState
      { state := .idle 10
        waypoints
        leashRange := archetype.leashRange
        aggroRange := archetype.aggroRange
        moveSpeed := archetype.moveSpeed
        experienceReward := archetype.experienceReward } ]

def isCombat : Component F → Bool
  | .combat _ => true
  | _ => false

/-- The components of an NPC of a new world: merchants don't need combat stats. -/
def initialNpcComponents (archetype : NpcArchetype F) (npcType : String)
    (position : F × F × F) (waypoints : List (F × F × F)) : List (Component F) :=
  let components := npcComponents archetype npcType position waypoints
  if F32.eq archetype.attackDamage 0.0 then components.filter (fun c => !isCombat c)
  else components

/-- Spawn one NPC the spawn manager asks for, with `build` making its components. -/
def spawnNpc
    (build : NpcArchetype F → String → F × F × F → List (F × F × F) → List (Component F))
    (manager : SpawnManager F) (ecs : EcsWorld F)
    (wanted : String × (F × F × F) × List (F × F × F)) : EcsWorld F :=
  match manager.getArchetype wanted.1 with
  | some archetype => ecs.spawn (build archetype wanted.1 wanted.2.1 wanted.2.2)
  | none => ecs

/-- Spawn the NPCs the spawn manager asks for. -/
def spawnNpcs
    (build : NpcArchetype F → String → F × F × F → List (F × F × F) → List (Component F))
    (manager : SpawnManager F) (spawns : List (String × (F × F × F) × List (F × F × F)))
    (ecs : EcsWorld F) : EcsWorld F :=
  spawns.foldl (spawnNpc build manager) ecs

/-- Create a new game world with the given seed. -/
def new (keccak256 : Bytes → B256) (seed : UInt64) : GameWorld F :=
  let manager := SpawnManager.new.generateSpawnPoints keccak256 seed
  let (spawns, manager) := manager.tickSpawns
  { ecs := spawnNpcs initialNpcComponents manager spawns .new
    currentTick := 0
    seed
    spawnManager := manager
    eventManager := .new }

/-- Load a game world from serialized state. -/
def fromState (keccak256 : Bytes → B256) (codec : EcsCodec F) (data : Bytes) (seed : UInt64)
    : Except GameEngineError (GameWorld F) :=
  match codec.decode data with
  | .error e => .error (.serialization e)
  | .ok ecs =>
      -- only the entities come from the data
      .ok
        { ecs
          currentTick := 0
          seed
          spawnManager := SpawnManager.new.generateSpawnPoints keccak256 seed
          eventManager := .new }

/-- A component that links an entity to an on-chain address. -/
def isPlayerOf (address : String) : Component F → Bool
  | .player player => player.address == address
  | _ => false

/-- Find a player entity by their on-chain address: the first one in the order of the walk. -/
def findPlayerEntity (order : EntityOrder F) (address : String) (ecs : EcsWorld F)
    : Option EntityId :=
  (ecs.playerEntities order).find? (ecs.hasComponent (isPlayerOf address))

/-- The components of a new player. -/
def playerComponents (address : String) (x y z : F) : List (Component F) :=
  [ .position { x, y, z }
  , .health { current := 100.0, maximum := 100.0, isDead := false }
  , .player
      { address
        name := "Player_" ++ String.ofList (address.toList.take 8)
        level := 1
        experience := 0 }
  , .physics
      { velocityX := 0.0
        velocityY := 0.0
        velocityZ := 0.0
        mass := 70.0
        isGrounded := true }
  , .inventory { items := [], maxSlots := 20 }
  , .combat .default
  , .equipment
      { mainHand := none
        offHand := none
        head := none
        chest := none
        legs := none
        boots := none } ]

/-- Spawn a new player entity. -/
def spawnPlayer (address : String) (x y z : F) (ecs : EcsWorld F) : EcsWorld F :=
  ecs.spawn (playerComponents address x y z)

/-- A coordinate in thousandths. -/
def milliunits (n : Int64) : F := F32.ofInt n.toInt / (1000.0 : F)

/-- Put every position component at the given point. -/
def movedTo (x y z : F) : Component F → Component F
  | .position _ => .position { x, y, z }
  | other => other

/-- Base damage on every health component. -/
def damaged : Component F → Component F
  | .health health =>
      let current := health.current - (10.0 : F)
      if F32.le current 0.0 then .health { health with current := 0.0, isDead := true }
      else .health { health with current }
  | other => other

/-- Process a single player action. -/
def processAction (order : EntityOrder F) (playerAddress : String) (action : GameAction)
    (ecs : EcsWorld F) : Except GameEngineError Unit × EcsWorld F :=
  match action with
  | .move x y z =>
      match findPlayerEntity order playerAddress ecs with
      | some entity =>
          (.ok (),
            ecs.updateComponents entity
              (List.map (movedTo (milliunits x) (milliunits y) (milliunits z))))
      | none =>
          (.ok (), spawnPlayer playerAddress (milliunits x) (milliunits y) (milliunits z) ecs)
  | .chat _ => (.ok (), ecs)
  | .respawn =>
      match findPlayerEntity order playerAddress ecs with
      | some entity => (.ok (), ecs.updateComponents entity (List.map Systems.respawned))
      | none => (.ok (), ecs)
  | .attack target =>
      match ecs.getComponents target with
      | some _ => (.ok (), ecs.updateComponents target (List.map damaged))
      | none => (.error (.entityNotFound target), ecs)
  | .interact _ => (.ok (), ecs)
  | .placeBlock _ _ _ _ => (.ok (), ecs)
  | .breakBlock _ _ _ => (.ok (), ecs)
  | .craft _ => (.ok (), ecs)

/-- Process the player actions of one tick; each looks up its player in its own order. -/
def processActions (order : Nat → EntityOrder F) (actions : List (String × GameAction))
    (ecs : EcsWorld F) : Except GameEngineError Unit × EcsWorld F :=
  Loop.run (fun (entry : (String × GameAction) × Nat) =>
      processAction (order entry.2) entry.1.1 entry.1.2)
    actions.zipIdx ecs

variable (crypto : Crypto) (codec : EcsCodec F)

/-- The part of a tick after its actions: systems, events and spawns. -/
def finishTick (order : TickOrder F) (ecs : EcsWorld F) (world : GameWorld F)
    : B256 × GameWorld F :=
  let currentTick := world.currentTick
  let ecs := Systems.runTick order.systems currentTick ecs
  let eventManager :=
    world.eventManager.tickPeriodicEvents crypto.keccak256 currentTick world.seed
  let (spawns, spawnManager) := world.spawnManager.tickSpawns
  let ecs := spawnNpcs npcComponents spawnManager spawns ecs
  (ecs.stateHash crypto.keccak256 codec order.serialize,
    { world with ecs, eventManager, spawnManager })

/-- Run one game tick, processing the given player actions. -/
def tick (order : TickOrder F) (actions : List (String × GameAction)) (world : GameWorld F)
    : Except GameEngineError B256 × GameWorld F :=
  -- a failing action leaves the tick counted and the earlier actions done
  let world := { world with currentTick := world.currentTick + 1 }
  match processActions order.action actions world.ecs with
  | (.error e, ecs) => (.error e, { world with ecs })
  | (.ok (), ecs) =>
      let (root, world) := finishTick crypto codec order ecs world
      (.ok root, world)

/-- Serialize the game world state. -/
def serializeState (order : EntityOrder F) (world : GameWorld F) : Bytes :=
  world.ecs.serialize codec order

end GameWorld

end VeloChain
