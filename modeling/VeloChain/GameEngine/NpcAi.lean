import VeloChain.GameEngine.Ecs

/-! NPC archetypes, spawn points and their cooldowns. -/

namespace VeloChain

variable (F : Type)

/-- High-level behavior patterns for NPCs. -/
inductive BehaviorPattern
  | passive
  | patrolPassive
  | patrolAggressive
  | guardian
  | timid
  | predator
  deriving DecidableEq

/-- NPC archetype defining base stats and behavior. -/
structure NpcArchetype where
  npcType : String
  maxHealth : F
  attackDamage : F
  attackRange : F
  attackCooldown : UInt32
  moveSpeed : F
  aggroRange : F
  leashRange : F
  behaviorPattern : BehaviorPattern
  respawnTicks : UInt32
  experienceReward : UInt64
  deriving DecidableEq

/-- Spawn point definition for NPCs. -/
structure SpawnPoint where
  archetype : String
  position : F × F × F
  patrolWaypoints : List (F × F × F)
  spawnRadius : F
  maxCount : UInt32
  currentCount : UInt32
  respawnCooldown : UInt32
  cooldownRemaining : UInt32
  deriving DecidableEq

/-- All spawn points and the archetypes they spawn. -/
structure SpawnManager where
  spawnPoints : List (SpawnPoint F)
  archetypes : List (NpcArchetype F)
  deriving DecidableEq

variable {F} [F32 F]

namespace SpawnManager

/-- Default NPC archetypes. -/
def defaultArchetypes : List (NpcArchetype F) :=
  [ { npcType := "merchant"
      maxHealth := 100.0
      attackDamage := 0.0
      attackRange := 0.0
      attackCooldown := 0
      moveSpeed := 0.5
      aggroRange := 0.0
      leashRange := 20.0
      behaviorPattern := .passive
      respawnTicks := 600
      experienceReward := 0 }
  , { npcType := "guard"
      maxHealth := 150.0
      attackDamage := 12.0
      attackRange := 2.0
      attackCooldown := 10
      moveSpeed := 1.0
      aggroRange := 8.0
      leashRange := 30.0
      behaviorPattern := .guardian
      respawnTicks := 300
      experienceReward := 25 }
  , { npcType := "wolf"
      maxHealth := 60.0
      attackDamage := 8.0
      attackRange := 1.5
      attackCooldown := 8
      moveSpeed := 1.5
      aggroRange := 10.0
      leashRange := 25.0
      behaviorPattern := .predator
      respawnTicks := 200
      experienceReward := 15 }
  , { npcType := "rabbit"
      maxHealth := 15.0
      attackDamage := 0.0
      attackRange := 0.0
      attackCooldown := 0
      moveSpeed := 2.0
      aggroRange := 6.0
      leashRange := 20.0
      behaviorPattern := .timid
      respawnTicks := 100
      experienceReward := 5 }
  , { npcType := "dragon"
      maxHealth := 1000.0
      attackDamage := 50.0
      attackRange := 4.0
      attackCooldown := 15
      moveSpeed := 1.2
      aggroRange := 15.0
      leashRange := 40.0
      behaviorPattern := .patrolAggressive
      respawnTicks := 3000
      experienceReward := 500 }
  , { npcType := "skeleton"
      maxHealth := 80.0
      attackDamage := 10.0
      attackRange := 1.5
      attackCooldown := 12
      moveSpeed := 0.8
      aggroRange := 8.0
      leashRange := 20.0
      behaviorPattern := .patrolAggressive
      respawnTicks := 250
      experienceReward := 20 } ]

/-- Create a new spawn manager with default archetypes. -/
def new : SpawnManager F := { spawnPoints := [], archetypes := defaultArchetypes }

/-- Get archetype by npc_type name. -/
def getArchetype (manager : SpawnManager F) (npcType : String) : Option (NpcArchetype F) :=
  manager.archetypes.find? (fun archetype => archetype.npcType == npcType)

/-- Type, base position, maximal count and radius of the initial spawn points. -/
def spawnConfigs : List (String × F × F × UInt32 × F) :=
  [ ("merchant", 5.0, 5.0, 1, 3.0)
  , ("guard", 0.0, 10.0, 2, 5.0)
  , ("guard", 10.0, 0.0, 2, 5.0)
  , ("wolf", 30.0, 30.0, 3, 10.0)
  , ("wolf", -20.0, 25.0, 2, 8.0)
  , ("rabbit", 15.0, 15.0, 4, 12.0)
  , ("rabbit", -10.0, -10.0, 3, 10.0)
  , ("skeleton", 40.0, -30.0, 3, 8.0)
  , ("skeleton", -35.0, 40.0, 2, 6.0)
  , ("dragon", 60.0, 60.0, 1, 5.0) ]

/-- The spawn point of one configuration, offset by a hash of the seed and its index. -/
def spawnPoint (keccak256 : Bytes → B256) (seed : UInt64) (manager : SpawnManager F)
    (index : Nat) (config : String × F × F × UInt32 × F) : SpawnPoint F :=
  let (npcType, baseX, baseY, maxCount, radius) := config
  let hash := hashSlice
    (keccak256 (Bytes.littleEndian 8 seed.toNat ++ Bytes.littleEndian 8 index))
  let offset := fun (position : Nat) =>
    (F32.ofInt (F := F) (hash.getD position 0).toNat / (255.0 : F) - (0.5 : F)) * (5.0 : F)
  let offsetX := offset 0
  let offsetY := offset 1
  let archetype := manager.getArchetype npcType
  let patrols :=
    match archetype.map NpcArchetype.behaviorPattern with
    | some .patrolPassive | some .patrolAggressive | some .guardian => true
    | _ => false
  let waypoint := fun (wp : Nat) =>
    let angle := F32.ofInt (F := F) wp * F32.fracPi2
    (baseX + offsetX + F32.cos angle * radius * (0.5 : F),
      baseY + offsetY + F32.sin angle * radius * (0.5 : F), (0.0 : F))
  { archetype := npcType
    position := (baseX + offsetX, baseY + offsetY, 0.0)
    patrolWaypoints := if patrols then (List.range 4).map waypoint else []
    spawnRadius := radius
    maxCount
    currentCount := 0
    respawnCooldown := (archetype.map NpcArchetype.respawnTicks).getD 200
    cooldownRemaining := 0 }

/-- Generate initial spawn points around spawn area. -/
def generateSpawnPoints (keccak256 : Bytes → B256) (seed : UInt64) (manager : SpawnManager F)
    : SpawnManager F :=
  { manager with
    spawnPoints :=
      manager.spawnPoints
      ++ spawnConfigs.mapIdx (fun index config =>
          spawnPoint keccak256 seed manager index config) }

/-- One tick of a spawn point: whether it spawns, and its next state. -/
def tickSpawnPoint (point : SpawnPoint F) : Bool × SpawnPoint F :=
  if point.currentCount < point.maxCount then
    if point.cooldownRemaining > 0 then
      (false, { point with cooldownRemaining := point.cooldownRemaining - 1 })
    else
      (true,
        { point with
          currentCount := point.currentCount + 1
          cooldownRemaining := point.respawnCooldown })
  else (false, point)

/-- Process spawn logic for one tick: what to spawn, and the next manager. -/
def tickSpawns (manager : SpawnManager F)
    : List (String × (F × F × F) × List (F × F × F)) × SpawnManager F :=
  ((manager.spawnPoints.filter (fun point => (tickSpawnPoint point).1)).map (fun point =>
      (point.archetype, point.position, point.patrolWaypoints)),
    { manager with
      spawnPoints := manager.spawnPoints.map (fun point => (tickSpawnPoint point).2) })

end SpawnManager

end VeloChain
