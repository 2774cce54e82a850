import VeloChain.GameEngine.Restart

/-! What the world tells about a player.
A query walks over the player entities and reports the first that is linked to the address. An
address has at most one, so the walk does not matter.
-/

namespace VeloChain

/-- Player info as the API returns it. -/
structure PlayerInfo (F : Type) where
  entityId : EntityId
  address : String
  position : F × F × F
  health : F
  maxHealth : F
  level : UInt32
  isAlive : Bool
  deriving DecidableEq

namespace GameWorld

variable {F : Type}

/-- Note what one component tells, and whether it links the entity to the address. -/
def noteComponent (address : String) (noted : Bool × PlayerInfo F) : Component F
    → Bool × PlayerInfo F
  | .player player =>
      if player.address == address then
        (true, { noted.2 with address := player.address, level := player.level })
      else noted
  | .position pos => (noted.1, { noted.2 with position := (pos.x, pos.y, pos.z) })
  | .health health =>
      (noted.1,
        { noted.2 with
          health := health.current
          maxHealth := health.maximum
          isAlive := !health.isDead })
  | _ => noted

section Info

variable [F32 F]

/-- The info of an entity before anything is known about it. -/
def blankInfo (entityId : EntityId) : PlayerInfo F :=
  { entityId
    address := ""
    position := (0.0, 0.0, 0.0)
    health := 0.0
    maxHealth := 0.0
    level := 0
    isAlive := true }

/-- The info of one entity, if it is linked to the address. -/
def infoOf (address : String) (entity : EntityId) (components : List (Component F))
    : Option (PlayerInfo F) :=
  let (isMatch, info) := components.foldl (noteComponent address) (false, blankInfo entity)
  if isMatch then some info else none

/-- Get player info by on-chain address: of the first linked entity in the order of the walk. -/
def getPlayerInfo (order : EntityOrder F) (address : String) (world : GameWorld F)
    : Option (PlayerInfo F) :=
  (world.ecs.playerEntities order).findSome? (fun entity =>
    (world.ecs.getComponents entity).bind (infoOf address entity))

end Info

/-- An entity matches when one of its components links it, by induction on the components. -/
theorem isMatch_foldl (address : String) (components : List (Component F))
    (noted : Bool × PlayerInfo F)
    : (components.foldl (noteComponent address) noted).1
      = (noted.1 || components.any (isPlayerOf address)) := by
  induction components generalizing noted with
  | nil => simp
  | cons component rest ih =>
      rw [List.foldl_cons, ih, List.any_cons]
      cases component with
      | player player =>
          simp only [noteComponent, isPlayerOf]
          cases linked : player.address == address with
          | false => simp
          | true => simp
      | _ => rfl

variable [F32 F]

theorem isSome_infoOf (address : String) (entity : EntityId) (components : List (Component F))
    : (infoOf address entity components).isSome = components.any (isPlayerOf address) := by
  have isMatch := isMatch_foldl address components (false, (blankInfo entity : PlayerInfo F))
  rw [Bool.false_or] at isMatch
  rw [← isMatch]
  unfold infoOf
  simp only
  split
  next linked => rw [linked]; rfl
  next unlinked => rw [Bool.eq_false_iff.mpr unlinked]; rfl

/-- A query reports the entity that the player lookup finds. -/
theorem getPlayerInfo_eq_bind (order : EntityOrder F) (address : String) (world : GameWorld F)
    : world.getPlayerInfo order address
      = (findPlayerEntity order address world.ecs).bind (fun entity =>
          (world.ecs.getComponents entity).bind (infoOf address entity)) := by
  unfold getPlayerInfo findPlayerEntity
  induction world.ecs.playerEntities order with
  | nil => rfl
  | cons entity rest ih =>
      rw [List.findSome?_cons, List.find?_cons]
      simp only [EcsWorld.hasComponent]
      cases found : world.ecs.getComponents entity with
      | none => simpa using ih
      | some components =>
          have matches_ := isSome_infoOf address entity components
          cases info : infoOf address entity components with
          | none =>
              rw [info] at matches_
              simp only [Option.bind_some, info, ← matches_, Option.isSome_none]
              exact ih
          | some info' =>
              rw [info] at matches_
              simp only [Option.bind_some, info, ← matches_, Option.isSome_some, found]

variable {crypto : Crypto} {codec : EcsCodec F}

/-- In every reachable world an address has at most one player entity, and the lookups find the
same in every order.
-/
theorem playerUniqueness {world : GameWorld F} (reachable : Reachable crypto codec world)
    (address : String) (order order' : EntityOrder F)
    : (∀ left right, world.ecs.IsPlayer address left → world.ecs.IsPlayer address right →
          left = right)
      ∧ findPlayerEntity order address world.ecs = findPlayerEntity order' address world.ecs
      ∧ world.getPlayerInfo order address = world.getPlayerInfo order' address := by
  have wellformed := reachable.wellformed
  have same := findPlayerEntity_congr wellformed order order' address
  refine ⟨wellformed.unique address, same, ?_⟩
  rw [getPlayerInfo_eq_bind, getPlayerInfo_eq_bind, same]

/-- A world in which a new player moves twice in its first tick. -/
def arrival : GameWorld Milli :=
  (tick .disclosing milliCodec (.uniform ascendingOrder)
    [("0xa", .move 1000 0 0), ("0xa", .move 2000 0 0), ("0xb", .move 0 0 0)]
    (new hashFromSlice 5)).2

theorem playerUniqueness_arrival
    : (∀ left right, arrival.ecs.IsPlayer "0xa" left → arrival.ecs.IsPlayer "0xa" right →
          left = right)
      ∧ findPlayerEntity ascendingOrder "0xa" arrival.ecs
        = findPlayerEntity ascendingOrder.reversed "0xa" arrival.ecs
      ∧ arrival.getPlayerInfo ascendingOrder "0xa"
        = arrival.getPlayerInfo ascendingOrder.reversed "0xa" :=
  @playerUniqueness Milli _ .disclosing milliCodec arrival
    (.tick (.uniform ascendingOrder) _ (.new 5)) "0xa" ascendingOrder ascendingOrder.reversed

end GameWorld

end VeloChain
