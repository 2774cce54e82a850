import VeloChain.Lib.HashMapOrder
import VeloChain.Primitives.Types

/-! Entities and their components.
The floating-point type is a parameter with the operations the engine uses. The entity map
is a hash map, so everything that walks over it takes the order of the walk as an argument.
-/

namespace VeloChain

/-- The operations of `f32` the game engine uses, as opaque functions. -/
class F32 (F : Type) extends Add F, Sub F, Mul F, Div F, Neg F, OfScientific F where
  le : F → F → Bool
  eq : F → F → Bool
  cos : F → F
  sin : F → F
  ofInt : Int → F
  fracPi2 : F

/-- Strictly less. -/
def F32.lt {F : Type} [F32 F] (a b : F) : Bool := F32.le a b && !F32.eq a b

/-- Fixed-point numbers in thousandths, the instance used for evaluation. Their circle
functions are constant.
-/
structure Milli where
  thousandths : Int
  deriving DecidableEq

instance : F32 Milli where
  add a b := ⟨a.thousandths + b.thousandths⟩
  sub a b := ⟨a.thousandths - b.thousandths⟩
  mul a b := ⟨a.thousandths * b.thousandths / 1000⟩
  div a b := ⟨a.thousandths * 1000 / b.thousandths⟩
  neg a := ⟨-a.thousandths⟩
  ofScientific mantissa negative exponent :=
    if negative then ⟨mantissa * 1000 / 10 ^ exponent⟩ else ⟨mantissa * 1000 * 10 ^ exponent⟩
  le a b := a.thousandths ≤ b.thousandths
  eq a b := a.thousandths = b.thousandths
  cos _ := ⟨1000⟩
  sin _ := ⟨0⟩
  ofInt n := ⟨n * 1000⟩
  fracPi2 := ⟨1571⟩

/-- Numbers that are all the same, an instance of opaque operations that tell nothing. -/
inductive OneFloat
  | value
  deriving DecidableEq

instance : F32 OneFloat where
  add _ _ := .value
  sub _ _ := .value
  mul _ _ := .value
  div _ _ := .value
  neg _ := .value
  ofScientific _ _ _ := .value
  le _ _ := true
  eq _ _ := true
  cos _ := .value
  sin _ := .value
  ofInt _ := .value
  fracPi2 := .value

section Components

variable (F : Type)

structure PositionComponent where
  x : F
  y : F
  z : F
  deriving DecidableEq

structure HealthComponent where
  current : F
  maximum : F
  isDead : Bool
  deriving DecidableEq

/-- Player component (linked to an on-chain address). -/
structure PlayerComponent where
  address : String
  name : String
  level : UInt32
  experience : UInt64
  deriving DecidableEq

inductive NpcBehavior
  | idle
  | patrol
  | aggressive
  | merchant
  deriving DecidableEq

structure NpcComponent where
  npcType : String
  behavior : NpcBehavior
  homePosition : PositionComponent F
  deriving DecidableEq

structure Item where
  itemId : UInt32
  quantity : UInt32
  metadata : Option String
  deriving DecidableEq

structure InventoryComponent where
  items : List Item
  maxSlots : UInt32
  deriving DecidableEq

structure PhysicsComponent where
  velocityX : F
  velocityY : F
  velocityZ : F
  mass : F
  isGrounded : Bool
  deriving DecidableEq

structure CombatComponent where
  attack : F
  defense : F
  attackRange : F
  attackCooldown : UInt32
  cooldownRemaining : UInt32
  critChance : F
  critMultiplier : F
  deriving DecidableEq

inductive NpcAiState
  | idle (ticksRemaining : UInt32)
  | patrolling (waypointIndex : Nat)
  | chasing (targetId : EntityId)
  | fleeing (threatId : EntityId) (ticksRemaining : UInt32)
  | returning
  | dead (respawnTicks : UInt32)
  deriving DecidableEq

structure AiStateComponent where
  state : NpcAiState
  waypoints : List (F × F × F)
  leashRange : F
  aggroRange : F
  moveSpeed : F
  experienceReward : UInt64
  deriving DecidableEq

structure EquipmentComponent where
  mainHand : Option UInt32
  offHand : Option UInt32
  head : Option UInt32
  chest : Option UInt32
  legs : Option UInt32
  boots : Option UInt32
  deriving DecidableEq

/-- Component types that can be attached to entities. -/
inductive Component
  | position (position : PositionComponent F)
  | health (health : HealthComponent F)
  | player (player : PlayerComponent)
  | npc (npc : NpcComponent F)
  | inventory (inventory : InventoryComponent)
  | physics (physics : PhysicsComponent F)
  | combat (combat : CombatComponent F)
  | aiState (aiState : AiStateComponent F)
  | equipment (equipment : EquipmentComponent)
  deriving DecidableEq

/-- All entities and their components. -/
@[ext]
structure EcsWorld where
  nextEntityId : EntityId
  entities : FinMap EntityId (List (Component F))

end Components

variable {F : Type}

def CombatComponent.default [F32 F] : CombatComponent F :=
  { attack := 10.0
    defense := 5.0
    attackRange := 2.0
    attackCooldown := 5
    cooldownRemaining := 0
    critChance := 0.05
    critMultiplier := 2.0 }

/-- An order in which the entity map is walked. -/
abbrev EntityOrder (F : Type) := IterationOrder EntityId (List (Component F))

/-- The bincode format of an entity world: the next id and the entities as they are walked. -/
structure EcsCodec (F : Type) where
  encode : EntityId → List (EntityId × List (Component F)) → Bytes
  decode : Bytes → Except String (EcsWorld F)

/-- A format for evaluation that keeps only the ids of the entities. -/
def EcsCodec.idsOnly : EcsCodec F :=
  { encode := fun nextId entities =>
      Bytes.bigEndian 8 nextId ++ entities.flatMap (fun entity => Bytes.bigEndian 8 entity.1)
    decode := fun _ => .error "entities cannot be read back" }

namespace Component

def isPosition : Component F → Bool
  | .position _ => true
  | _ => false

def isHealth : Component F → Bool
  | .health _ => true
  | _ => false

def isPlayer : Component F → Bool
  | .player _ => true
  | _ => false

def isNpc : Component F → Bool
  | .npc _ => true
  | _ => false

def isPhysics : Component F → Bool
  | .physics _ => true
  | _ => false

end Component

namespace EcsWorld

/-- Create a new empty ECS world. -/
def new : EcsWorld F := { nextEntityId := 1, entities := ∅ }

/-- Spawn a new entity with the given components. -/
def spawn (components : List (Component F)) (world : EcsWorld F) : EcsWorld F :=
  { nextEntityId := world.nextEntityId + 1
    entities := world.entities.insert world.nextEntityId components }

/-- Get all components of an entity. -/
def getComponents (world : EcsWorld F) (entity : EntityId) : Option (List (Component F)) :=
  world.entities.lookup entity

/-- Change the components of an entity in place, if it exists. -/
def updateComponents (entity : EntityId) (f : List (Component F) → List (Component F))
    (world : EcsWorld F) : EcsWorld F :=
  { world with entities := FinMap.modify entity f world.entities }

/-- The components of an entity satisfy `matcher` somewhere. -/
def hasComponent (world : EcsWorld F) (matcher : Component F → Bool) (entity : EntityId)
    : Bool :=
  match world.getComponents entity with
  | none => false
  | some components => components.any matcher

/-- Get all entities that have a specific component type, in the order of the walk. -/
def entitiesWith (order : EntityOrder F) (matcher : Component F → Bool) (world : EcsWorld F)
    : List EntityId :=
  (order.keys world.entities).filter (world.hasComponent matcher)

/-- Get all player entities. -/
def playerEntities (order : EntityOrder F) (world : EcsWorld F) : List EntityId :=
  world.entitiesWith order Component.isPlayer

/-- Get all NPC entities. -/
def npcEntities (order : EntityOrder F) (world : EcsWorld F) : List EntityId :=
  world.entitiesWith order Component.isNpc

/-- Serialize the entire ECS world to bytes, entities in the order of the walk. -/
def serialize (codec : EcsCodec F) (order : EntityOrder F) (world : EcsWorld F) : Bytes :=
  codec.encode world.nextEntityId
    ((order.keys world.entities).map (fun id => (id, (world.getComponents id).getD [])))

/-- The hash of the serialized world. -/
def stateHash (keccak256 : Bytes → B256) (codec : EcsCodec F) (order : EntityOrder F)
    (world : EcsWorld F) : B256 :=
  keccak256 (world.serialize codec order)

theorem nodup_entitiesWith (order : EntityOrder F) (matcher : Component F → Bool)
    (world : EcsWorld F)
    : (world.entitiesWith order matcher).Nodup :=
  (order.nodup world.entities).filter _

/-- Which entities have a component does not depend on the order of the walk. -/
theorem mem_entitiesWith {order : EntityOrder F} {matcher : Component F → Bool}
    {world : EcsWorld F} {entity : EntityId}
    : entity ∈ world.entitiesWith order matcher ↔ world.hasComponent matcher entity := by
  simp only [entitiesWith, List.mem_filter, order.mem_keys, and_iff_right_iff_imp]
  unfold hasComponent getComponents
  cases found : world.entities.lookup entity with
  | none => simp
  | some components => exact fun _ => Finmap.mem_of_lookup_eq_some found

@[simp]
theorem getComponents_updateComponents (world : EcsWorld F) (entity other : EntityId)
    (f : List (Component F) → List (Component F))
    : (world.updateComponents entity f).getComponents other
      = if other = entity then (world.getComponents other).map f
        else world.getComponents other := by
  unfold getComponents updateComponents
  exact FinMap.lookup_modify entity other f world.entities

theorem getComponents_spawn (world : EcsWorld F) (components : List (Component F))
    (entity : EntityId)
    : (world.spawn components).getComponents entity
      = if entity = world.nextEntityId then some components
        else world.getComponents entity := by
  unfold getComponents spawn
  exact FinMap.lookup_insert_eq world.entities world.nextEntityId entity components

/-- An in-place change of one entity has no effect exactly when it keeps its components. -/
theorem updateComponents_eq_self_iff {world : EcsWorld F} {entity : EntityId}
    {f : List (Component F) → List (Component F)}
    : world.updateComponents entity f = world
      ↔ ∀ components, world.getComponents entity = some components
          → f components = components := by
  constructor
  · intro same components found
    have after := congrArg (fun w => EcsWorld.getComponents w entity) same
    simpa [found] using after
  · intro fixed
    unfold updateComponents FinMap.modify
    cases found : world.entities.lookup entity with
    | none => rfl
    | some components =>
        have same : f components = components := fixed components found
        simp only [same, FinMap.insert_lookup_self found]

end EcsWorld

end VeloChain
