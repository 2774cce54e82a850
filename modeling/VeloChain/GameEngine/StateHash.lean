import VeloChain.GameEngine.World
import VeloChain.Lib.BinaryFormats
import VeloChain.Primitives.Block

/-! The game-state root and the order of the entity map.
The serialization keeps the entities in the order in which the hash map is walked, so the root
tells which walk was taken: it is the same for two walks exactly when they are equal.
-/

namespace VeloChain

variable {F : Type}

section Bincode

variable (bits : F → UInt32)

/-- A floating-point number in 32 bits. -/
def bincodeFloat (value : F) : Bytes := Bincode.uint 4 (bits value).toNat

def PositionComponent.bincode (position : PositionComponent F) : Bytes :=
  bincodeFloat bits position.x ++ bincodeFloat bits position.y ++ bincodeFloat bits position.z

def HealthComponent.bincode (health : HealthComponent F) : Bytes :=
  bincodeFloat bits health.current
  ++ bincodeFloat bits health.maximum
  ++ Bincode.bool health.isDead

def PlayerComponent.bincode (player : PlayerComponent) : Bytes :=
  Bincode.string player.address
  ++ Bincode.string player.name
  ++ Bincode.uint 4 player.level.toNat
  ++ Bincode.uint 8 player.experience.toNat

def NpcBehavior.bincode : NpcBehavior → Bytes
  | .idle => Bincode.variant 0 []
  | .patrol => Bincode.variant 1 []
  | .aggressive => Bincode.variant 2 []
  | .merchant => Bincode.variant 3 []

def NpcComponent.bincode (npc : NpcComponent F) : Bytes :=
  Bincode.string npc.npcType ++ npc.behavior.bincode ++ npc.homePosition.bincode bits

def Item.bincode (item : Item) : Bytes :=
  Bincode.uint 4 item.itemId.toNat
  ++ Bincode.uint 4 item.quantity.toNat
  ++ Bincode.option Bincode.string item.metadata

def InventoryComponent.bincode (inventory : InventoryComponent) : Bytes :=
  Bincode.seq Item.bincode inventory.items ++ Bincode.uint 4 inventory.maxSlots.toNat

def PhysicsComponent.bincode (physics : PhysicsComponent F) : Bytes :=
  bincodeFloat bits physics.velocityX
  ++ bincodeFloat bits physics.velocityY
  ++ bincodeFloat bits physics.velocityZ
  ++ bincodeFloat bits physics.mass
  ++ Bincode.bool physics.isGrounded

def CombatComponent.bincode (combat : CombatComponent F) : Bytes :=
  bincodeFloat bits combat.attack
  ++ bincodeFloat bits combat.defense
  ++ bincodeFloat bits combat.attackRange
  ++ Bincode.uint 4 combat.attackCooldown.toNat
  ++ Bincode.uint 4 combat.cooldownRemaining.toNat
  ++ bincodeFloat bits combat.critChance
  ++ bincodeFloat bits combat.critMultiplier

def NpcAiState.bincode : NpcAiState → Bytes
  | .idle ticksRemaining => Bincode.variant 0 (Bincode.uint 4 ticksRemaining.toNat)
  | .patrolling waypointIndex => Bincode.variant 1 (Bincode.uint 8 waypointIndex)
  | .chasing targetId => Bincode.variant 2 (Bincode.uint 8 targetId)
  | .fleeing threatId ticksRemaining =>
      Bincode.variant 3 (Bincode.uint 8 threatId ++ Bincode.uint 4 ticksRemaining.toNat)
  | .returning => Bincode.variant 4 []
  | .dead respawnTicks => Bincode.variant 5 (Bincode.uint 4 respawnTicks.toNat)

def AiStateComponent.bincode (aiState : AiStateComponent F) : Bytes :=
  aiState.state.bincode
  ++ Bincode.seq
      (fun waypoint =>
        bincodeFloat bits waypoint.1
        ++ bincodeFloat bits waypoint.2.1
        ++ bincodeFloat bits waypoint.2.2)
      aiState.waypoints
  ++ bincodeFloat bits aiState.leashRange
  ++ bincodeFloat bits aiState.aggroRange
  ++ bincodeFloat bits aiState.moveSpeed
  ++ Bincode.uint 8 aiState.experienceReward.toNat

def EquipmentComponent.bincode (equipment : EquipmentComponent) : Bytes :=
  [ equipment.mainHand
  , equipment.offHand
  , equipment.head
  , equipment.chest
  , equipment.legs
  , equipment.boots ].flatMap (Bincode.option (fun item => Bincode.uint 4 item.toNat))

def Component.bincode : Component F → Bytes
  | .position fields => Bincode.variant 0 (fields.bincode bits)
  | .health fields => Bincode.variant 1 (fields.bincode bits)
  | .player fields => Bincode.variant 2 fields.bincode
  | .npc fields => Bincode.variant 3 (fields.bincode bits)
  | .inventory fields => Bincode.variant 4 fields.bincode
  | .physics fields => Bincode.variant 5 (fields.bincode bits)
  | .combat fields => Bincode.variant 6 (fields.bincode bits)
  | .aiState fields => Bincode.variant 7 (fields.bincode bits)
  | .equipment fields => Bincode.variant 8 fields.bincode

/-- The bincode form of an entity world, with a decoder to choose. -/
def EcsCodec.bincode (decode : Bytes → Except String (EcsWorld F)) : EcsCodec F :=
  { encode := fun nextId entities =>
      Bincode.uint 8 nextId
      ++ Bincode.map (Bincode.uint 8) (Bincode.seq (Component.bincode bits)) entities
    decode }

end Bincode

namespace EcsWorld

/-- The entities of a world in the order of a walk. -/
def walk (order : EntityOrder F) (world : EcsWorld F) : List (EntityId × List (Component F)) :=
  (order.keys world.entities).map (fun id => (id, (world.getComponents id).getD []))

end EcsWorld

/-- Different walks of a world have different encodings: the format writes the entities one
after the other.
-/
def EcsCodec.WritesInOrder (codec : EcsCodec F) (world : EcsWorld F) : Prop :=
  ∀ order order' : EntityOrder F,
    codec.encode world.nextEntityId (world.walk order)
      = codec.encode world.nextEntityId (world.walk order')
    → world.walk order = world.walk order'

/-- Entity ids are 64-bit numbers. -/
def EcsWorld.IdsFit (world : EcsWorld F) : Prop := ∀ id, id ∈ world.entities → id < 2 ^ 64

theorem EcsCodec.bincode_writesInOrder (bits : F → UInt32)
    (decode : Bytes → Except String (EcsWorld F)) {world : EcsWorld F} (fit : world.IdsFit)
    : (EcsCodec.bincode bits decode).WritesInOrder world := by
  intro order order' same
  have entries := List.append_cancel_left same
  have keys : order.keys world.entities = order'.keys world.entities :=
    Bincode.map_walk_inj (by decide)
      (fun id mem => fit id ((order.mem_keys _ id).mp mem))
      (fun id mem => fit id ((order'.mem_keys _ id).mp mem))
      entries
  rw [EcsWorld.walk, keys, EcsWorld.walk]

/-- Two nodes with this world that walk over it in these orders get the same serialization, the
same root and the same hash of a genesis header with it.
-/
structure RootAgrees (crypto : Crypto) (codec : EcsCodec F) (left right : EcsWorld F)
    (order order' : EntityOrder F) : Prop where
  serialize : left.serialize codec order = right.serialize codec order'
  stateHash
    : left.stateHash crypto.keccak256 codec order = right.stateHash crypto.keccak256 codec order'
  genesis
    : (BlockHeader.genesis (left.stateHash crypto.keccak256 codec order)).hash crypto
      = (BlockHeader.genesis (right.stateHash crypto.keccak256 codec order')).hash crypto

namespace EcsWorld

variable {codec : EcsCodec F} {world : EcsWorld F} {order order' : EntityOrder F}

theorem walk_inj : world.walk order = world.walk order'
    ↔ order.keys world.entities = order'.keys world.entities := by
  constructor
  · intro same
    have keys := congrArg (List.map Prod.fst) same
    simpa only [walk, List.map_map, Function.comp_def, List.map_id'] using keys
  · intro keys
    rw [walk, keys, walk]

/-- Worlds with the same next id and the same entries, as finite maps, are the same. -/
theorem ext_getComponents {left right : EcsWorld F}
    (nextId : left.nextEntityId = right.nextEntityId)
    (entries : ∀ id, left.getComponents id = right.getComponents id)
    : left = right :=
  EcsWorld.ext nextId (Finmap.ext_lookup entries)

/-- Two nodes whose worlds are equal as finite maps agree on the game-state root exactly when
their hash maps happen to be walked in the same order.
-/
theorem rootAgrees_iff (crypto : Crypto) {left right : EcsWorld F}
    (nextId : left.nextEntityId = right.nextEntityId)
    (entries : ∀ id, left.getComponents id = right.getComponents id)
    (inOrder : codec.WritesInOrder left) (order order' : EntityOrder F)
    : RootAgrees crypto codec left right order order'
      ↔ order.keys left.entities = order'.keys right.entities := by
  obtain rfl := ext_getComponents nextId entries
  constructor
  · intro agrees
    exact walk_inj.mp (inOrder order order' agrees.serialize)
  · intro keys
    have bytes : left.serialize codec order = left.serialize codec order' :=
      congrArg (codec.encode left.nextEntityId) (walk_inj.mpr keys)
    have root
        : left.stateHash crypto.keccak256 codec order
          = left.stateHash crypto.keccak256 codec order' :=
      congrArg crypto.keccak256 bytes
    exact ⟨bytes, root, by rw [root]⟩

end EcsWorld

section GenesisWorlds

/-- The entities of a new world in fixed-point numbers. -/
def genesisEntities : EcsWorld Milli := (GameWorld.new hashFromSlice 5).ecs

/-- The walk of the reference node. -/
def ascendingOrder : EntityOrder Milli := FinMap.ascending id Function.injective_id

/-- The format with the thousandths as the bits of a number, for evaluation. -/
def milliCodec : EcsCodec Milli :=
  .bincode (fun value => (Int32.ofInt value.thousandths).toUInt32)
    (fun _ => .error "not read back")

theorem idsFit_genesisEntities : genesisEntities.IdsFit := by
  intro id mem
  have each : ∀ id ∈ ascendingOrder.keys genesisEntities.entities, id < 2 ^ 64 := by
    decide +kernel
  exact each id ((ascendingOrder.mem_keys _ id).mpr mem)

theorem rootAgrees_iff_genesisEntities
    : RootAgrees .disclosing milliCodec genesisEntities genesisEntities ascendingOrder
        ascendingOrder.reversed
      ↔ ascendingOrder.keys genesisEntities.entities
        = ascendingOrder.reversed.keys genesisEntities.entities :=
  EcsWorld.rootAgrees_iff .disclosing rfl (fun _ => rfl)
    (EcsCodec.bincode_writesInOrder _ _ idsFit_genesisEntities) ascendingOrder
    ascendingOrder.reversed

/-- Two nodes that build the same genesis world and walk over it from either end disagree. -/
theorem rootAgrees_fails_reversed
    : ¬ ∀ (left right : EcsWorld Milli),
        left.nextEntityId = right.nextEntityId
        → (∀ id, left.getComponents id = right.getComponents id)
        → ∀ order order',
            RootAgrees .disclosing milliCodec left right order order' := by
  intro claimed
  have agrees := claimed genesisEntities genesisEntities rfl (fun _ => rfl) ascendingOrder
    ascendingOrder.reversed
  have walks := EcsCodec.bincode_writesInOrder _ _ idsFit_genesisEntities ascendingOrder
    ascendingOrder.reversed agrees.serialize
  have keys := EcsWorld.walk_inj.mp walks
  exact absurd keys (by decide +kernel)

end GenesisWorlds

end VeloChain
