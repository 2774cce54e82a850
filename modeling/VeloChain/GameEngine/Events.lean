import VeloChain.GameEngine.Ecs

/-! Periodic world events: day and night, weather, resources and enemy waves. -/

namespace VeloChain

/-- Weather types. -/
inductive WeatherType
  | clear
  | rain
  | storm
  | fog
  | snow
  deriving DecidableEq

/-- Types of periodic world events. -/
inductive WorldEventType
  | dayNightTransition (isDay : Bool)
  | weatherChange (weather : WeatherType)
  | enemyWave (intensity : UInt32)
  | resourceRespawn
  | worldBoss
  deriving DecidableEq

variable (F : Type)

/-- Game event types that can occur during a tick. -/
inductive GameEvent
  | entitySpawned (entityId : EntityId) (entityType : String) (position : F × F × F)
  | entityDied (entityId : EntityId) (entityType : String) (killerId : Option EntityId)
      (position : F × F × F)
  | entityDespawned (entityId : EntityId) (entityType : String)
  | playerJoined (entityId : EntityId) (address : String)
  | playerLevelUp (entityId : EntityId) (address : String) (newLevel : UInt32)
  | itemDropped (position : F × F × F) (itemId quantity : UInt32) (dropId : UInt64)
  | itemPickedUp (entityId : EntityId) (itemId quantity : UInt32)
  | combatHit (attackerId targetId : EntityId) (damage : F) (isCritical : Bool)
  | chatMessage (senderId : EntityId) (senderAddress message : String)
  | worldEvent (eventType : WorldEventType) (tick : UInt64)
  deriving DecidableEq

/-- Ground item that can be picked up. -/
structure GroundItem where
  dropId : UInt64
  itemId : UInt32
  quantity : UInt32
  position : F × F × F
  droppedAt : UInt64
  despawnTicks : UInt32
  deriving DecidableEq

/-- Event manager processes and stores game events. -/
structure EventManager where
  currentEvents : List (GameEvent F)
  groundItems : List (GroundItem F)
  nextDropId : UInt64
  isDay : Bool
  weather : WeatherType
  dayCycleTicks : UInt64
  weatherIntervalTicks : UInt64
  deriving DecidableEq

variable {F}

namespace EventManager

/-- Create a new event manager. -/
def new : EventManager F :=
  { currentEvents := []
    groundItems := []
    nextDropId := 1
    isDay := true
    weather := .clear
    dayCycleTicks := 6000
    weatherIntervalTicks := 3000 }

/-- Emit an event. -/
def emit (event : GameEvent F) (manager : EventManager F) : EventManager F :=
  { manager with currentEvents := manager.currentEvents ++ [event] }

/-- Deterministic weather selection. -/
def deterministicWeather (keccak256 : Bytes → B256) (tick seed : UInt64) : WeatherType :=
  let hash := hashSlice
    (keccak256
      (Bytes.littleEndian 8 seed.toNat ++ Bytes.littleEndian 8 tick.toNat
        ++ "weather".toUTF8.toList))
  match (hash.getD 0 0).toNat % 5 with
  | 0 => .clear
  | 1 => .rain
  | 2 => .storm
  | 3 => .fog
  | _ => .snow

/-- Day/night cycle. -/
def tickDay (tick : UInt64) (manager : EventManager F) : EventManager F :=
  if manager.dayCycleTicks > 0 ∧ tick % manager.dayCycleTicks = 0 then
    { manager with isDay := !manager.isDay }.emit
      (.worldEvent (.dayNightTransition (!manager.isDay)) tick)
  else manager

/-- Weather changes. -/
def tickWeather (keccak256 : Bytes → B256) (tick seed : UInt64) (manager : EventManager F)
    : EventManager F :=
  if manager.weatherIntervalTicks > 0 ∧ tick % manager.weatherIntervalTicks = 0 then
    let weather := deterministicWeather keccak256 tick seed
    if weather ≠ manager.weather then
      { manager with weather }.emit (.worldEvent (.weatherChange weather) tick)
    else manager
  else manager

/-- Resource respawn every 1000 ticks. -/
def tickResources (tick : UInt64) (manager : EventManager F) : EventManager F :=
  if tick % 1000 = 0 ∧ tick > 0 then manager.emit (.worldEvent .resourceRespawn tick)
  else manager

/-- Enemy wave every 5000 ticks. -/
def tickEnemyWave (tick : UInt64) (manager : EventManager F) : EventManager F :=
  if tick % 5000 = 0 ∧ tick > 0 then
    manager.emit (.worldEvent (.enemyWave (min (tick / 5000).toUInt32 5)) tick)
  else manager

/-- Clean up expired ground items; the age of an item saturates at zero. -/
def tickGroundItems (tick : UInt64) (manager : EventManager F) : EventManager F :=
  { manager with
    groundItems := manager.groundItems.filter (fun item =>
      item.despawnTicks == 0
      || decide (tick.toNat - item.droppedAt.toNat < item.despawnTicks.toNat)) }

/-- Process periodic events based on tick number. -/
def tickPeriodicEvents (keccak256 : Bytes → B256) (tick seed : UInt64)
    (manager : EventManager F) : EventManager F :=
  ((((manager.tickDay tick).tickWeather keccak256 tick seed).tickResources tick).tickEnemyWave
    tick).tickGroundItems tick

end EventManager

end VeloChain
